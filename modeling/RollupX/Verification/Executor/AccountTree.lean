import RollupX.Model.Executor.Rocks
import RollupX.Verification.Executor.Commutation
import RollupX.Verification.Executor.LeafIndices
import RollupX.Verification.MerkleTree.Getters

/-! The accounts of the RocksDB store and the Merkle tree beside them. The root of the store is
that of the plain Merkle tree over its accounts, and it binds them. -/

namespace RollupX.Executor.RocksDbStateManager

open Commitment Machine RollupX.MerkleTree Faulty

variable {h : HashTree} {s s' t t' : RocksDbStateManager Database} {db db' : KvStore}
  {a : Address} {idx : UInt64} {rt : Runtime} {batchId batchId' : String}
  {txs txs' : List Transaction}

def treeKey (a : Address) : Key :=
  BitVec.ofNat 256 (keyFromAddress a)

theorem toNat_treeKey (a : Address) : (treeKey a).toNat = Bytes.ofBe a.toList := by
  have hlt := Bytes.ofBe_lt a.toList
  rw [Vector.length_toList] at hlt
  rw [treeKey, BitVec.toNat_ofNat, keyFromAddress]
  exact Nat.mod_eq_of_lt (hlt.trans (by decide))

theorem treeKey_injective : Function.Injective treeKey := by
  intro a b hab
  have hnat := congrArg BitVec.toNat hab
  rw [toNat_treeKey, toNat_treeKey] at hnat
  have hbytes := Bytes.ofBe_inj (by simp) hnat
  exact Vector.toList_inj.mp hbytes

def addressOf (key : Key) : Option Address :=
  if key.toNat < 256 ^ 20 then some ⟨(Bytes.be 20 key.toNat).toArray, by simp⟩ else none

theorem addressOf_eq_some_iff {key : Key} : addressOf key = some a ↔ treeKey a = key := by
  rw [addressOf]
  split_ifs with hlt
  · rw [Option.some.injEq, ← BitVec.toNat_inj, toNat_treeKey]
    constructor
    · rintro rfl
      exact Bytes.ofBe_be_of_lt hlt
    · intro hkey
      rw [← Vector.toList_inj]
      refine Bytes.ofBe_inj (by simp) ?_
      exact (Bytes.ofBe_be_of_lt hlt).trans hkey.symm
  · refine iff_of_false (by rintro ⟨⟩) ?_
    rintro rfl
    have hbound := Bytes.ofBe_lt a.toList
    rw [Vector.length_toList] at hbound
    exact hlt (toNat_treeKey a ▸ hbound)

/-- An account has a place in the tree once it has a leaf index. -/
def accountTree (s : RocksDbStateManager Database) (key : Key) : Option TreeValue :=
  (addressOf key).bind fun a =>
    (leafIndex s.accountDb a).map fun idx => (accountValueHash (s.getAccount a), idx)

@[simp] theorem accountTree_treeKey :
    accountTree s (treeKey a) =
      (leafIndex s.accountDb a).map fun idx => (accountValueHash (s.getAccount a), idx) := by
  rw [accountTree, addressOf_eq_some_iff.mpr rfl, Option.bind_some]

/-- No index is zero, which stands for a missing leaf in the tree. -/
structure Positive (db : KvStore) : Prop where
  next : nextLeafIndex db ≠ 0
  leaf : ∀ a idx, leafIndex db a = some idx → idx ≠ 0

theorem positive_empty : Positive fun _ => none where
  next := by decide
  leaf a idx hidx := by cases hidx

theorem Positive.put_leafIndexKey (hpos : Positive db) (hidx : idx ≠ 0) (a : Address) :
    Positive (db.put (leafIndexKey a) (Bytes.be 8 idx.toNat)) where
  next := by
    have hkey : nextLeafIndexKey ≠ leafIndexKey a := (leafIndexKey_ne_nextLeafIndexKey a).symm
    rw [show nextLeafIndex (db.put (leafIndexKey a) _) = nextLeafIndex db by
      simp [nextLeafIndex, KvStore.put, hkey]]
    exact hpos.next
  leaf b other hother := by
    rw [leafIndex_put_leafIndexKey] at hother
    split_ifs at hother
    · cases hother
      exact hidx
    · exact hpos.leaf b other hother

theorem Positive.put_nextLeafIndexKey (hpos : Positive db) (hidx : idx ≠ 0) :
    Positive (db.put nextLeafIndexKey (Bytes.be 8 idx.toNat)) where
  next := by rwa [nextLeafIndex_put_nextLeafIndexKey]
  leaf b other hother := by
    rw [leafIndex_put_nextLeafIndexKey] at hother
    exact hpos.leaf b other hother

theorem Positive.persistAccountBlob (hpos : Positive db) (a : Address) (account : Account) :
    Positive (persistAccountBlob db a account) where
  next := by
    rw [nextLeafIndex_persistAccountBlob]
    exact hpos.next
  leaf b other hother := by
    rw [leafIndex_persistAccountBlob] at hother
    exact hpos.leaf b other hother

theorem saturatingAdd_one_ne_zero (idx : UInt64) : Bytes.saturatingAdd idx 1 ≠ 0 := by
  intro hzero
  have hsat := Bytes.toNat_saturatingAdd idx 1
  rw [hzero] at hsat
  simp at hsat
  omega

section Assigned

variable {faults : LeafIndexFaults} {r : Except (ExecutorError × KvStore) (UInt64 × KvStore)}

theorem Positive.assigned (hpos : Positive db) (heffect : LeafIndexEffect faults db a r) :
    Positive (left r) := by
  cases heffect with
  | failed e | known bytes _ => exact hpos
  | interrupted e idx _ hnext _ _ _ _ =>
    exact hpos.put_leafIndexKey (nextLeafIndex_of_load hnext ▸ hpos.next) a
  | assigned idx _ hnext _ _ _ =>
    exact (hpos.put_leafIndexKey (nextLeafIndex_of_load hnext ▸ hpos.next) a).put_nextLeafIndexKey
      (saturatingAdd_one_ne_zero idx)

theorem leafIndex_of_assigned (heffect : LeafIndexEffect faults db a (.ok (idx, db'))) :
    leafIndex db' = Function.update (leafIndex db) a (some idx) := by
  cases heffect with
  | known bytes hbytes =>
    rw [eq_comm, Function.update_eq_self_iff, leafIndex, hbytes]
    rfl
  | assigned _ hnew hnext _ _ _ =>
    funext b
    rw [leafIndex_assigned, Function.update_apply]

end Assigned

theorem leafIndexEffect_of_ok (hget : getOrAssignLeafIndex db a = .ok (idx, db')) :
    LeafIndexEffect {} db a (.ok (idx, db')) := by
  have heffect := getOrAssignLeafIndex_effect {} db a
  rwa [getOrAssignLeafIndex_noFaults, hget] at heffect

section Write

variable {account : Account} (hget : getOrAssignLeafIndex s.accountDb a = .ok (idx, db))

include hget

theorem getAccount_written (jmt' : Database) :
    getAccount ⟨jmt', persistAccountBlob db a account⟩ =
      Function.update s.getAccount a account := by
  rw [getAccount_persistAccountBlob]
  congr 1
  exact getAccount_congr fun b => getOrAssignLeafIndex_accountKey hget

theorem leafIndex_written :
    leafIndex (persistAccountBlob db a account) =
      Function.update (leafIndex s.accountDb) a (some idx) := by
  rw [leafIndex_persistAccountBlob, leafIndex_of_assigned (leafIndexEffect_of_ok hget)]

theorem accountTree_written (jmt' : Database) :
    accountTree ⟨jmt', persistAccountBlob db a account⟩ =
      TreeInstruction.apply (accountTree s)
        (.write ⟨treeKey a, accountValueHash account, idx⟩) := by
  funext key
  rw [TreeInstruction.apply]
  cases hkey : addressOf key with
  | none =>
    have hne : key ≠ treeKey a := by
      rintro rfl
      rw [addressOf_eq_some_iff.mpr rfl] at hkey
      cases hkey
    rw [Function.update_of_ne hne, accountTree, accountTree, hkey]
    rfl
  | some b =>
    obtain rfl := addressOf_eq_some_iff.mp hkey
    rw [accountTree_treeKey, leafIndex_written hget, getAccount_written hget]
    rcases eq_or_ne b a with rfl | hne
    · simp [TreeEntry.treeValue]
    · rw [Function.update_of_ne hne, Function.update_of_ne hne,
        Function.update_of_ne (fun heq => hne (treeKey_injective heq)), accountTree_treeKey]

end Write

/-- The Merkle tree of the store holds its accounts. -/
structure Mirrored (h : HashTree) (s : RocksDbStateManager Database) : Prop where
  indexed : WellIndexed s.accountDb
  positive : Positive s.accountDb
  blank : ∀ a, leafIndex s.accountDb a = none → s.getAccount a = default
  tree : ∃ maps, History h s.jmt maps ∧ latest maps = accountTree s

theorem mirrored_fresh : Mirrored h fresh where
  indexed := wellIndexed_empty
  positive := positive_empty
  blank _ _ := rfl
  tree := ⟨[], history_empty, by
    funext key
    rw [accountTree]
    cases addressOf key <;> rfl⟩

theorem Mirrored.currentRoot_eq (hs : Mirrored h s) :
    (rocksDb h).currentRoot s = h.treeHash (accountTree s) := by
  obtain ⟨maps, hhist, hlatest⟩ := hs.tree
  rw [← hlatest]
  exact hhist.latestRootHash_eq

theorem Mirrored.written (hs : Mirrored h s) {account : Account} {jmt' : Database}
    (hget : getOrAssignLeafIndex s.accountDb a = .ok (idx, db)) (hindexed : WellIndexed db)
    {maps : List Contents} (hhist : History h jmt' maps)
    (hlatest : latest maps = TreeInstruction.apply (accountTree s)
      (.write ⟨treeKey a, accountValueHash account, idx⟩)) :
    Mirrored h ⟨jmt', persistAccountBlob db a account⟩ where
  indexed := hindexed.put _ _ (.inr ⟨a, rfl⟩)
  positive := (hs.positive.assigned (leafIndexEffect_of_ok hget)).persistAccountBlob a account
  blank b hb := by
    rw [leafIndex_written hget] at hb
    rw [getAccount_written hget]
    rcases eq_or_ne b a with rfl | hne
    · simp at hb
    · rw [Function.update_of_ne hne] at hb ⊢
      exact hs.blank b hb
  tree := ⟨maps, hhist, hlatest.trans (accountTree_written hget jmt').symm⟩

/-- What a write does: the tree follows the account, and the path in the diff leads from the old
entry to the old root and from the new entry to the new one. For a path without siblings the
diff has the root in its place. -/
theorem Mirrored.setAccount_eq (hs : Mirrored h s) (a : Address) (account : Account) :
    ∃ idx path diff s', (rocksDb h).setAccount s a account = .ok (diff, s') ∧ Mirrored h s' ∧
      leafIndex s'.accountDb a = some idx ∧
      diff.merkleProof = (if path = [] then [(rocksDb h).currentRoot s'] else path) ∧
      h.foldMerklePath path (entryAt (accountTree s) (treeKey a)) = (rocksDb h).currentRoot s ∧
      h.foldMerklePath path ⟨treeKey a, accountValueHash account, idx⟩ =
        (rocksDb h).currentRoot s' := by
  obtain ⟨maps, hhist, hlatest⟩ := hs.tree
  obtain ⟨idx, db, hget, hindexed⟩ := hs.indexed.getOrAssignLeafIndex a
  obtain ⟨⟨logs, leafCount⟩, jmt', hextend, hlogs, -, hhist'⟩ :=
    hhist.extendWithProofs_eq [.write ⟨treeKey a, accountValueHash account, idx⟩]
  rw [hlatest] at hlogs hhist'
  have hs' : Mirrored h ⟨jmt', persistAccountBlob db a account⟩ :=
    hs.written hget hindexed hhist' (by simp [latest])
  cases hlogs with
  | @cons _ _ _ log _ hlog htail =>
    cases htail
    obtain ⟨-, hroot, hpath, hlen⟩ := hlog
    have hold := foldMerklePath_of_siblings hlen
      (hpath.trans (keySiblings_apply (.write ⟨treeKey a, accountValueHash account, idx⟩)))
    have hnew := foldMerklePath_of_siblings hlen hpath
    have hset : ∃ diff, (rocksDb h).setAccount s a account =
          .ok (diff, ⟨jmt', persistAccountBlob db a account⟩) ∧
        diff.merkleProof = if log.merklePath = [] then
          [(rocksDb h).currentRoot ⟨jmt', persistAccountBlob db a account⟩]
          else log.merklePath := by
      simp only [rocksDb, stateManager, setAccount, hget, zksyncTree]
      rw [show BitVec.ofNat 256 (keyFromAddress a) = treeKey a from rfl, hextend]
      exact ⟨_, rfl, rfl⟩
    obtain ⟨diff, hset, hproof⟩ := hset
    refine ⟨idx, log.merklePath, diff, _, hset, hs', ?_, hproof, ?_, ?_⟩
    · rw [leafIndex_written hget, Function.update_self]
    · rw [hs.currentRoot_eq]
      exact hold
    · rw [hs'.currentRoot_eq, accountTree_written hget, ← hnew]
      exact congrArg _ (entryAt_write _).symm

/-- The tree has been built by its own updates, and its leaves have the indices on record. -/
def Recorded (h : HashTree) (jmt : Database) (db : KvStore) : Prop :=
  ∃ maps, History h jmt maps ∧ ∀ a value idx,
    latest maps (treeKey a) = some (value, idx) → leafIndex db a = some idx

/-- What also a call that fails leaves. The accounts may differ from the tree. -/
structure Sound (h : HashTree) (s : RocksDbStateManager Database) : Prop where
  indexed : WellIndexed s.accountDb
  positive : Positive s.accountDb
  tree : Recorded h s.jmt s.accountDb

theorem Mirrored.sound (hs : Mirrored h s) : Sound h s where
  indexed := hs.indexed
  positive := hs.positive
  tree := by
    obtain ⟨maps, hhist, hlatest⟩ := hs.tree
    refine ⟨maps, hhist, fun a value idx hvalue => ?_⟩
    rw [hlatest, accountTree_treeKey] at hvalue
    obtain ⟨i, hi, heq⟩ := Option.map_eq_some_iff.mp hvalue
    rw [hi, (Prod.mk.inj heq).2]

theorem sound_fresh : Sound h fresh :=
  mirrored_fresh.sound

theorem zksyncTree_extendWithProofs {jmt : Database} {maps : List Contents}
    (hhist : History h jmt maps) (a : Address) (idx : UInt64) (value : Hash) :
    ∃ path jmt', (zksyncTree h).extendWithProofs jmt ⟨keyFromAddress a, idx, value⟩ =
        .ok (path, jmt') ∧
      History h jmt' (maps ++
        [TreeInstruction.apply (latest maps) (.write ⟨treeKey a, value, idx⟩)]) := by
  obtain ⟨output, jmt', hextend, -, -, hhist'⟩ :=
    hhist.extendWithProofs_eq [.write ⟨treeKey a, value, idx⟩]
  refine ⟨(output.logs.head?.map (·.merklePath)).getD [], jmt', ?_, hhist'⟩
  simp only [zksyncTree]
  rw [show BitVec.ofNat 256 (keyFromAddress a) = treeKey a from rfl, hextend]

section Recorded

variable {jmt : Database} {faults : LeafIndexFaults}

theorem Recorded.assigned {r : Except (ExecutorError × KvStore) (UInt64 × KvStore)}
    (hrec : Recorded h jmt db) (heffect : LeafIndexEffect faults db a r) :
    Recorded h jmt (left r) := by
  obtain ⟨maps, hhist, hleaves⟩ := hrec
  refine ⟨maps, hhist, fun b value idx hvalue => ?_⟩
  exact heffect.leafIndex_kept (hleaves b value idx hvalue)

theorem Recorded.extended (hrec : Recorded h jmt db)
    (heffect : LeafIndexEffect faults db a (.ok (idx, db'))) (value : Hash) :
    ∃ path jmt', (zksyncTree h).extendWithProofs jmt ⟨keyFromAddress a, idx, value⟩ =
      .ok (path, jmt') ∧ Recorded h jmt' db' := by
  obtain ⟨maps, hhist, hleaves⟩ := hrec
  obtain ⟨path, jmt', hext, hhist'⟩ := zksyncTree_extendWithProofs hhist a idx value
  refine ⟨path, jmt', hext, _, hhist', fun b v i hvalue => ?_⟩
  rw [latest_concat, TreeInstruction.apply] at hvalue
  rw [leafIndex_of_assigned heffect]
  rcases eq_or_ne b a with rfl | hne
  · rw [Function.update_self] at hvalue ⊢
    exact congrArg (Option.map Prod.snd) hvalue
  · rw [Function.update_of_ne (fun heq => hne (treeKey_injective heq))] at hvalue
    rw [Function.update_of_ne hne]
    exact hleaves b v i hvalue

theorem Recorded.persistAccountBlob (hrec : Recorded h jmt db) (a : Address)
    (account : Account) : Recorded h jmt (persistAccountBlob db a account) := by
  obtain ⟨maps, hhist, hleaves⟩ := hrec
  refine ⟨maps, hhist, fun b value idx hvalue => ?_⟩
  rw [leafIndex_persistAccountBlob]
  exact hleaves b value idx hvalue

end Recorded

theorem Sound.exists_extended (hs : Sound h s) (a : Address) (account : Account) (idx : UInt64) :
    ∃ r, (zksyncTree h).extendWithProofs s.jmt ⟨keyFromAddress a, idx, accountValueHash account⟩ =
      .ok r := by
  obtain ⟨maps, hhist, -⟩ := hs.tree
  obtain ⟨path, jmt, hext, -⟩ := zksyncTree_extendWithProofs hhist a idx (accountValueHash account)
  exact ⟨_, hext⟩

theorem Sound.setAccount (hs : Sound h s) (faults : SetAccountFaults) (a : Address)
    (account : Account) :
    Sound h (left (Faulty.setAccount (zksyncTree h) faults s a account)) := by
  have hindexed := wellIndexed_setAccount (zksyncTree h) faults a account hs.indexed
  have hassign := getOrAssignLeafIndex_effect faults.leafIndex s.accountDb a
  have hpositive := hs.positive.assigned hassign
  have hkept := hs.tree.assigned hassign
  have heffect := setAccount_effect (zksyncTree h) faults s a account
  generalize Faulty.setAccount (zksyncTree h) faults s a account = r at hindexed heffect ⊢
  have hextended : ∀ idx db path jmt,
      Faulty.getOrAssignLeafIndex faults.leafIndex s.accountDb a = .ok (idx, db) →
      Faulty.extendWithProofs (zksyncTree h) faults s.jmt
        ⟨keyFromAddress a, idx, accountValueHash account⟩ = .ok (path, jmt) →
      Recorded h jmt db := by
    intro idx db path jmt hidx hext
    rw [hidx] at hassign
    obtain ⟨path', jmt', hext', hrec⟩ := hs.tree.extended hassign (accountValueHash account)
    rw [extendWithProofs_of_ok hext'] at hext
    split_ifs at hext
    cases hext
    exact hrec
  cases heffect with
  | indexFailed e db hidx =>
    rw [hidx] at hpositive hkept
    exact ⟨hindexed, hpositive, hkept⟩
  | treeFailed failure idx db jmt hidx hext =>
    rw [hidx] at hassign hpositive hkept
    obtain ⟨path', jmt', hext', -⟩ := hs.tree.extended hassign (accountValueHash account)
    rw [extendWithProofs_of_ok hext'] at hext
    have hjmt : jmt = s.jmt := by
      split_ifs at hext
      all_goals
        cases hext
        rfl
    exact ⟨hindexed, hpositive, hjmt ▸ hkept⟩
  | rootUnread idx db jmt hidx hext _ =>
    rw [hidx] at hpositive
    exact ⟨hindexed, hpositive, hextended idx db [] jmt hidx hext⟩
  | accountFailed e idx db path jmt hidx hext _ =>
    rw [hidx] at hpositive
    exact ⟨hindexed, hpositive, hextended idx db path jmt hidx hext⟩
  | written diff idx db path jmt hidx hext _ =>
    rw [hidx] at hpositive
    exact ⟨hindexed, hpositive.persistAccountBlob a account,
      (hextended idx db path jmt hidx hext).persistAccountBlob a account⟩

theorem writable_rocksDb : (rocksDb h).Writable (Mirrored h) where
  exists_ok a account hs := by
    obtain ⟨-, -, diff, s', hset, -⟩ := hs.setAccount_eq a account
    exact ⟨(diff, s'), hset⟩
  keeps {s s' a account diff} hs hset := by
    obtain ⟨_, _, _, s'', hset', hs'', -⟩ := hs.setAccount_eq a account
    rw [hset, Except.ok.injEq, Prod.mk.injEq] at hset'
    exact hset'.2 ▸ hs''

theorem Mirrored.exists_storeStep (hs : Mirrored h s) (rt : Runtime) (event : StoreEvent) :
    ∃ s', storeStep rt (rocksDb h) s event = some s' ∧ Mirrored h s' := by
  have hsome : ∃ s', storeStep rt (rocksDb h) s event = some s' := by
    cases event with
    | start env => exact ⟨_, rfl⟩
    | batch batchId txs =>
      have hsucceeds : Succeeds rt (rocksDb h) s batchId txs :=
        writable_rocksDb.succeeds hs batchId txs
      obtain ⟨s', trace, htrace⟩ := hsucceeds.exists_trace
      exact ⟨s', by simp only [storeStep, htrace]⟩
  obtain ⟨s', hstep⟩ := hsome
  exact ⟨s', hstep, storeStep_writable (lawful _ _) writable_rocksDb hs hstep⟩

/-- Over any starts and batches no write fails, and the tree stays with the accounts. -/
theorem exists_mirrored (h : HashTree) (rt : Runtime) (events : List StoreEvent) :
    ∃ s, events.foldlM (storeStep rt (rocksDb h)) fresh = some s ∧ Mirrored h s := by
  suffices hall : ∀ s, Mirrored h s →
      ∃ s', events.foldlM (storeStep rt (rocksDb h)) s = some s' ∧ Mirrored h s' from
    hall fresh mirrored_fresh
  induction events with
  | nil => exact fun s hs => ⟨s, rfl, hs⟩
  | cons event events ih =>
    intro s hs
    obtain ⟨s₁, hstep, hs₁⟩ := hs.exists_storeStep rt event
    obtain ⟨s', hrest, hs'⟩ := ih s₁ hs₁
    exact ⟨s', by rw [List.foldlM_cons, hstep]; exact hrest, hs'⟩

theorem mirrored_of_foldlM {rt : Runtime} {events : List StoreEvent}
    (hrun : events.foldlM (storeStep rt (rocksDb h)) fresh = some s) : Mirrored h s := by
  obtain ⟨s', hrun', hs'⟩ := exists_mirrored h rt events
  rw [hrun, Option.some.injEq] at hrun'
  exact hrun' ▸ hs'

/-- Whatever starts and batches the store has seen, none has failed, its root is that of the
Merkle tree over its accounts, and the next write proves its change of the root. -/
theorem currentRoot_events (h : HashTree) (rt : Runtime) (events : List StoreEvent)
    (a : Address) (account : Account) :
    ∃ s, events.foldlM (storeStep rt (rocksDb h)) fresh = some s ∧
      (rocksDb h).currentRoot s = h.treeHash (accountTree s) ∧
      ∃ idx path diff s', (rocksDb h).setAccount s a account = .ok (diff, s') ∧
        (rocksDb h).currentRoot s' = h.treeHash (accountTree s') ∧
        leafIndex s'.accountDb a = some idx ∧
        diff.merkleProof = (if path = [] then [(rocksDb h).currentRoot s'] else path) ∧
        h.foldMerklePath path (entryAt (accountTree s) (treeKey a)) = (rocksDb h).currentRoot s ∧
        h.foldMerklePath path ⟨treeKey a, accountValueHash account, idx⟩ =
          (rocksDb h).currentRoot s' := by
  obtain ⟨s, hrun, hs⟩ := exists_mirrored h rt events
  obtain ⟨idx, path, diff, s', hset, hs', hrest⟩ := hs.setAccount_eq a account
  exact ⟨s, hrun, hs.currentRoot_eq, idx, path, diff, s', hset, hs'.currentRoot_eq, hrest⟩

def indices (db : KvStore) : (Address → Option UInt64) × UInt64 :=
  (leafIndex db, nextLeafIndex db)

def assign (given : (Address → Option UInt64) × UInt64) (a : Address) :
    (Address → Option UInt64) × UInt64 :=
  if (given.1 a).isSome then given
  else (Function.update given.1 a (some given.2), Bytes.saturatingAdd given.2 1)

theorem indices_setAccount {account : Account} {diff : StateDiff}
    (hset : (rocksDb h).setAccount s a account = .ok (diff, s')) :
    indices s'.accountDb = assign (indices s.accountDb) a := by
  obtain ⟨idx, db, hget, hdb, -⟩ := setAccount_ok (zksyncTree h) hset
  have heffect := leafIndexEffect_of_ok hget
  have hleaf := leafIndex_of_assigned heffect
  rw [hdb, indices, leafIndex_persistAccountBlob, nextLeafIndex_persistAccountBlob]
  cases heffect with
  | known bytes hbytes =>
    have hknown : (leafIndex s.accountDb a).isSome := by simp [leafIndex, hbytes]
    exact (if_pos hknown).symm
  | assigned _ hnew hnext _ _ _ =>
    have hunknown : ¬(leafIndex s.accountDb a).isSome := by simp [leafIndex, hnew]
    rw [hleaf, nextLeafIndex_put_nextLeafIndexKey, ← nextLeafIndex_of_load hnext]
    exact (if_neg hunknown).symm

theorem indices_txStep {l l' : BatchLoop (RocksDbStateManager Database)} {tx : Transaction}
    (hstep : TxStep rt (rocksDb h) batchId l tx l')
    (hadm : Admitted rt (rocksDb h) batchId l tx) :
    indices l'.state.accountDb =
      [tx.sender, tx.receiver].foldl assign (indices l.state.accountDb) := by
  obtain ⟨d₁, s₁, d₂, s₂, h₁, h₂, rfl⟩ := executeTx_of_admitted hadm hstep
  exact (indices_setAccount h₂).trans (congrArg (assign · tx.receiver) (indices_setAccount h₁))

theorem indices_run {l l' : BatchLoop (RocksDbStateManager Database)}
    (hr : Run (TxStep rt (rocksDb h) batchId) l txs l')
    (hroom : l.executed.length + txs.length ≤ maxIncluded batchId)
    (hincl : ∀ v ∈ verdicts rt l.state.getAccount txs, v.1 = true) :
    indices l'.state.accountDb =
      (txs.flatMap fun tx => [tx.sender, tx.receiver]).foldl assign
        (indices l.state.accountDb) := by
  induction hr with
  | nil l => rfl
  | @cons l tx k txs l' hstep _ ih =>
    rw [List.length_cons] at hroom
    rw [verdicts, List.forall_mem_cons] at hincl
    obtain ⟨haccounts, -, hlength⟩ := hstep.onAccounts (lawful _ _) (by omega)
    have hadm : Admitted rt (rocksDb h) batchId l tx :=
      ⟨Option.isNone_iff_eq_none.mp hincl.1, by omega⟩
    have haccounts' : k.state.getAccount = applyTx rt l.state.getAccount tx := haccounts
    rw [List.flatMap_cons, List.foldl_append, ← indices_txStep hstep hadm]
    exact ih (by omega) (haccounts' ▸ hincl.2)

theorem Mirrored.currentRoot_congr (hs : Mirrored h s) (hs' : Mirrored h s')
    (haccounts : s.getAccount = s'.getAccount)
    (hindices : indices s.accountDb = indices s'.accountDb) :
    (rocksDb h).currentRoot s = (rocksDb h).currentRoot s' := by
  have hleaf : leafIndex s.accountDb = leafIndex s'.accountDb := congrArg Prod.fst hindices
  rw [hs.currentRoot_eq, hs'.currentRoot_eq]
  congr 1
  funext key
  rw [accountTree, accountTree, haccounts, hleaf]

/-- Batches that include all their transactions, and write to the same addresses, leave one root
if they leave the same accounts. -/
theorem Mirrored.currentRoot_batches (hs : Mirrored h s) {trace trace' : ExecutionTraceV1}
    (hbatch : executeBatch rt (rocksDb h) s batchId txs = (t, .ok trace))
    (hbatch' : executeBatch rt (rocksDb h) s batchId' txs' = (t', .ok trace'))
    (hroom : txs.length ≤ maxIncluded batchId) (hroom' : txs'.length ≤ maxIncluded batchId')
    (hincl : ∀ v ∈ verdicts rt s.getAccount txs, v.1 = true)
    (hincl' : ∀ v ∈ verdicts rt s.getAccount txs', v.1 = true)
    (haddresses : (txs.flatMap fun tx => [tx.sender, tx.receiver]) =
      txs'.flatMap fun tx => [tx.sender, tx.receiver])
    (haccounts : txs.foldl (applyTx rt) s.getAccount = txs'.foldl (applyTx rt) s.getAccount) :
    t.getAccount = txs.foldl (applyTx rt) s.getAccount ∧ t.getAccount = t'.getAccount ∧
      (rocksDb h).currentRoot t = (rocksDb h).currentRoot t' := by
  have hget : t.getAccount = _ := (executeBatch_onAccounts (lawful _ _) hbatch hroom).1
  have hget' : t'.getAccount = _ := (executeBatch_onAccounts (lawful _ _) hbatch' hroom').1
  have heq : t.getAccount = t'.getAccount := hget.trans (haccounts.trans hget'.symm)
  obtain ⟨l, hr, rfl, -⟩ := executeBatch_ok_iff.mp hbatch
  obtain ⟨l', hr', rfl, -⟩ := executeBatch_ok_iff.mp hbatch'
  have hindices := indices_run hr (by simpa [BatchLoop.start] using hroom) hincl
  have hindices' := indices_run hr' (by simpa [BatchLoop.start] using hroom') hincl'
  have hmirrored : ∀ {batchId txs l}, Run (TxStep rt (rocksDb h) batchId)
      (BatchLoop.start (rocksDb h) s) txs l → Mirrored h l.state := by
    intro batchId txs l hr
    exact hr.invariant_of_step (I := fun l => Mirrored h l.state)
      (fun _ _ _ hl hstep => hstep.writable writable_rocksDb hl) hs
  refine ⟨hget, heq, (hmirrored hr).currentRoot_congr (hmirrored hr') heq ?_⟩
  rw [hindices, hindices', haddresses]

theorem accountValueHash_injective : Function.Injective accountValueHash := by
  intro x y hxy
  have hbytes := congrArg Vector.toList hxy
  simp only [accountValueHash, Vector.toList_mk] at hbytes
  obtain ⟨hfields, -⟩ := List.append_inj hbytes (by simp)
  obtain ⟨hbalance, hnonce⟩ := List.append_inj hfields (by simp)
  rw [Bytes.be_inj x.balance.toNat_lt y.balance.toNat_lt, UInt64.toNat_inj] at hbalance
  rw [Bytes.be_inj x.nonce.toNat_lt y.nonce.toNat_lt, UInt64.toNat_inj] at hnonce
  cases x
  cases y
  simp_all

theorem Mirrored.binding (hs : Mirrored h s) (hs' : Mirrored h s')
    (hroot : (rocksDb h).currentRoot s = (rocksDb h).currentRoot s') (a : Address) :
    (s.getAccount a = s'.getAccount a ∧
      leafIndex s.accountDb a = leafIndex s'.accountDb a) ∨
      Collision h.hashInput (h.keyInputs (accountTree s) (treeKey a) ++
        h.keyInputs (accountTree s') (treeKey a)) := by
  rw [hs.currentRoot_eq, hs'.currentRoot_eq] at hroot
  refine (treeHash_binding hroot (treeKey a)).imp (fun hentry => ?_) id
  rw [entryAt, entryAt, accountTree_treeKey, accountTree_treeKey] at hentry
  cases hidx : leafIndex s.accountDb a with
  | none =>
    cases hidx' : leafIndex s'.accountDb a with
    | none => exact ⟨(hs.blank a hidx).trans (hs'.blank a hidx').symm, rfl⟩
    | some idx' =>
      simp only [hidx, hidx', Option.map_none, Option.map_some, TreeEntry.empty,
        TreeEntry.mk.injEq] at hentry
      exact absurd hentry.2.2.symm (hs'.positive.leaf a idx' hidx')
  | some idx =>
    cases hidx' : leafIndex s'.accountDb a with
    | none =>
      simp only [hidx, hidx', Option.map_none, Option.map_some, TreeEntry.empty,
        TreeEntry.mk.injEq] at hentry
      exact absurd hentry.2.2 (hs.positive.leaf a idx hidx)
    | some idx' =>
      simp only [hidx, hidx', Option.map_some, TreeEntry.mk.injEq, true_and] at hentry
      exact ⟨accountValueHash_injective hentry.1, by rw [hentry.2]⟩

def paymentsToBob (first second : UInt64) : List Transaction :=
  [payment alice bob first 0, payment alice bob second 1]

theorem foldl_paymentsToBob {accounts : Address → Account}
    (haccounts : accounts = fun a => if a = alice then ⟨100, 0⟩ else default) :
    (paymentsToBob 10 20).foldl (applyTx localRuntime) accounts =
      (paymentsToBob 20 10).foldl (applyTx localRuntime) accounts := by
  rw [haccounts]
  funext a
  by_cases ha : a ∈ [alice, bob]
  · rcases List.mem_pair.mp ha with rfl | rfl
    · decide +kernel
    · decide +kernel
  · have hout : ∀ accounts amount nonce,
        applyTx localRuntime accounts (payment alice bob amount nonce) a = accounts a :=
      fun _ _ _ => applyTx_of_not_mem ha
    simp only [paymentsToBob, List.foldl_cons, List.foldl_nil, hout]

theorem getAccount_aliceGenesis {s : RocksDbStateManager Database}
    (hstart : [StoreEvent.start aliceGenesis].foldlM
      (storeStep localRuntime (rocksDb sha256Tree)) fresh = some s) :
    s.getAccount = fun a => if a = alice then ⟨100, 0⟩ else default := by
  have hseeded : leadingAddresses aliceGenesis.entries = [alice] := by decide +kernel
  have hbalance : aliceGenesis.genesisBalance = 100 := by decide +kernel
  have hspec := (seedEntries_spec (lawful (zksyncTree sha256Tree) Database.empty)
    writable_rocksDb aliceGenesis.genesisBalance aliceGenesis.entries mirrored_fresh).2
  cases hstart
  funext a
  refine (hspec a).trans ?_
  rw [hseeded, hbalance]
  simp only [List.mem_singleton]
  rfl

/-- One more batch, after any starts and batches. -/
theorem exists_nextBatch (h : HashTree) (rt : Runtime) {events : List StoreEvent}
    {s : RocksDbStateManager Database}
    (hrun : events.foldlM (storeStep rt (rocksDb h)) fresh = some s) (batchId : String)
    (txs : List Transaction) :
    ∃ t trace, executeBatch rt (rocksDb h) s batchId txs = (t, .ok trace) ∧
      (events ++ [StoreEvent.batch batchId txs]).foldlM (storeStep rt (rocksDb h)) fresh =
        some t := by
  have hsucceeds : Succeeds rt (rocksDb h) s batchId txs :=
    writable_rocksDb.succeeds (mirrored_of_foldlM hrun) batchId txs
  obtain ⟨t, trace, htrace⟩ := hsucceeds.exists_trace
  refine ⟨t, trace, htrace, ?_⟩
  rw [List.foldlM_append, hrun]
  simp [storeStep, htrace]

theorem exists_sameRoot : ∃ s s' : RocksDbStateManager Database,
    [StoreEvent.start aliceGenesis, .batch "b1" (paymentsToBob 10 20)].foldlM
      (storeStep localRuntime (rocksDb sha256Tree)) fresh = some s ∧
    [StoreEvent.start aliceGenesis, .batch "b1" (paymentsToBob 20 10)].foldlM
      (storeStep localRuntime (rocksDb sha256Tree)) fresh = some s' ∧
    s.getAccount alice = ⟨70, 2⟩ ∧ s.getAccount bob = ⟨30, 0⟩ ∧ s.getAccount = s'.getAccount ∧
    (rocksDb sha256Tree).currentRoot s = (rocksDb sha256Tree).currentRoot s' := by
  obtain ⟨s₀, hstart, hs₀⟩ := exists_mirrored sha256Tree localRuntime [.start aliceGenesis]
  have haccounts := getAccount_aliceGenesis hstart
  obtain ⟨s, trace, hexec, hrun⟩ :=
    exists_nextBatch sha256Tree localRuntime hstart "b1" (paymentsToBob 10 20)
  obtain ⟨s', trace', hexec', hrun'⟩ :=
    exists_nextBatch sha256Tree localRuntime hstart "b1" (paymentsToBob 20 10)
  obtain ⟨hget, heq, hroot⟩ := hs₀.currentRoot_batches hexec hexec' (by decide) (by decide)
    (by rw [haccounts]; decide +kernel) (by rw [haccounts]; decide +kernel) rfl
    (foldl_paymentsToBob haccounts)
  refine ⟨s, s', hrun, hrun', ?_, ?_, heq, hroot⟩
  · rw [hget, haccounts]
    decide +kernel
  · rw [hget, haccounts]
    decide +kernel

/-- Stores with one root have the same account and leaf index at every address. -/
theorem accounts_of_currentRoot (h : HashTree) (rt rt' : Runtime) (events events' : List StoreEvent)
    (hrun : events.foldlM (storeStep rt (rocksDb h)) fresh = some s)
    (hrun' : events'.foldlM (storeStep rt' (rocksDb h)) fresh = some s')
    (hroot : (rocksDb h).currentRoot s = (rocksDb h).currentRoot s') (a : Address) :
    (s.getAccount a = s'.getAccount a ∧
      leafIndex s.accountDb a = leafIndex s'.accountDb a) ∨
      Collision h.hashInput (h.keyInputs (accountTree s) (treeKey a) ++
        h.keyInputs (accountTree s') (treeKey a)) :=
  (mirrored_of_foldlM hrun).binding (mirrored_of_foldlM hrun') hroot a

theorem accounts_of_currentRoot_paymentsToBob :
    ∃ s s' : RocksDbStateManager Database,
      [StoreEvent.start aliceGenesis, .batch "b1" (paymentsToBob 10 20)].foldlM
        (storeStep localRuntime (rocksDb sha256Tree)) fresh = some s ∧
      [StoreEvent.start aliceGenesis, .batch "b1" (paymentsToBob 20 10)].foldlM
        (storeStep localRuntime (rocksDb sha256Tree)) fresh = some s' ∧
      s.getAccount alice = ⟨70, 2⟩ ∧ s.getAccount bob = ⟨30, 0⟩ ∧
      (rocksDb sha256Tree).currentRoot s = (rocksDb sha256Tree).currentRoot s' ∧
      ∀ a, (s.getAccount a = s'.getAccount a ∧
        leafIndex s.accountDb a = leafIndex s'.accountDb a) ∨
        Collision sha256Tree.hashInput (sha256Tree.keyInputs (accountTree s) (treeKey a) ++
          sha256Tree.keyInputs (accountTree s') (treeKey a)) := by
  obtain ⟨s, s', hrun, hrun', halice, hbob, -, hroot⟩ := exists_sameRoot
  exact ⟨s, s', hrun, hrun', halice, hbob, hroot,
    accounts_of_currentRoot sha256Tree localRuntime localRuntime _ _ hrun hrun' hroot⟩

end RollupX.Executor.RocksDbStateManager
