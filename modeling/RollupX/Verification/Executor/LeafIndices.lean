import RollupX.Library.Run
import RollupX.Verification.Executor.Faults

/-! Leaf indices over runs with failed writes and restarts. -/

namespace RollupX.Executor.Faulty

open Machine
open RocksDbStateManager (accountKey leafIndexKey nextLeafIndexKey readIndex
  persistAccountBlob leafIndexKey_injective leafIndexKey_ne_nextLeafIndexKey
  leafIndexKey_ne_accountKey nextLeafIndexKey_ne_accountKey)

variable {J : Type*} {jmtTree : JmtTree J}

def leafIndex (db : KvStore) (address : Address) : Option UInt64 :=
  (db (leafIndexKey address)).map readIndex

def nextLeafIndex (db : KvStore) : UInt64 :=
  match db nextLeafIndexKey with
  | some bytes => readIndex bytes
  | none => 1

theorem readIndex_be (idx : UInt64) : readIndex (Bytes.be 8 idx.toNat) = idx := by
  rw [readIndex, Bytes.ofBe_be_of_lt idx.toNat_lt, UInt64.ofNat_toNat]

theorem leafIndex_put_leafIndexKey (db : KvStore) (a b : Address) (idx : UInt64) :
    leafIndex (db.put (leafIndexKey a) (Bytes.be 8 idx.toNat)) b =
      if b = a then some idx else leafIndex db b := by
  unfold leafIndex KvStore.put
  by_cases h : b = a
  · simp [h, readIndex_be]
  · have hkey : leafIndexKey b ≠ leafIndexKey a := fun he => h (leafIndexKey_injective he)
    simp [h, hkey]

theorem leafIndex_put_nextLeafIndexKey (db : KvStore) (value : List UInt8) (a : Address) :
    leafIndex (db.put nextLeafIndexKey value) a = leafIndex db a := by
  simp [leafIndex, KvStore.put, leafIndexKey_ne_nextLeafIndexKey a]

theorem nextLeafIndex_put_nextLeafIndexKey (db : KvStore) (idx : UInt64) :
    nextLeafIndex (db.put nextLeafIndexKey (Bytes.be 8 idx.toNat)) = idx := by
  simp [nextLeafIndex, KvStore.put, readIndex_be]

theorem leafIndex_assigned (db : KvStore) (a b : Address) (idx : UInt64) (value : List UInt8) :
    leafIndex ((db.put (leafIndexKey a) (Bytes.be 8 idx.toNat)).put nextLeafIndexKey value) b =
      if b = a then some idx else leafIndex db b := by
  rw [leafIndex_put_nextLeafIndexKey, leafIndex_put_leafIndexKey]

theorem nextLeafIndex_of_load {db : KvStore} {idx : UInt64}
    (h : RocksDbStateManager.loadNextLeafIndex db = .ok idx) : nextLeafIndex db = idx := by
  unfold RocksDbStateManager.loadNextLeafIndex at h
  unfold nextLeafIndex
  cases hnext : db nextLeafIndexKey with
  | none =>
    rw [hnext] at h
    exact Except.ok.inj h
  | some bytes =>
    simp only [hnext] at h
    split_ifs at h
    exact Except.ok.inj h

/-- No index belongs to two addresses, and all are below the counter. -/
structure Unique (db : KvStore) : Prop where
  distinct : ∀ a b idx, leafIndex db a = some idx → leafIndex db b = some idx → a = b
  below : ∀ a idx, leafIndex db a = some idx → idx < nextLeafIndex db

/-- When the record of a new address is written, the counter is too, and it can still grow. -/
def Completes (faults : LeafIndexFaults) (db : KvStore) (address : Address) : Prop :=
  leafIndex db address = none → faults.readLeafIndex = none → faults.readNextLeafIndex = none →
    faults.writeLeafIndex = none →
      faults.writeNextLeafIndex = none ∧ nextLeafIndex db < 18446744073709551615

theorem LeafIndexEffect.unique {faults : LeafIndexFaults} {db : KvStore} {address : Address}
    {r : Except (ExecutorError × KvStore) (UInt64 × KvStore)}
    (h : LeafIndexEffect faults db address r) (hdb : Unique db)
    (hcompletes : Completes faults db address) : Unique (left r) := by
  cases h with
  | failed e | known bytes _ => exact hdb
  | interrupted e idx hnew _ hread hreadNext hwrite hwriteNext =>
    have hcompletes := hcompletes (by simp [leafIndex, hnew]) hread hreadNext hwrite
    exact absurd hcompletes.1 hwriteNext
  | assigned idx hnew hnext hread hreadNext hwrite =>
    have hroom := (hcompletes (by simp [leafIndex, hnew]) hread hreadNext hwrite).2
    rw [nextLeafIndex_of_load hnext] at hroom
    have hbelow : ∀ a i, leafIndex db a = some i → i < idx := fun a i hi =>
      nextLeafIndex_of_load hnext ▸ hdb.below a i hi
    have hsucc : idx < Bytes.saturatingAdd idx 1 := by
      have hsat := Bytes.toNat_saturatingAdd idx 1
      rw [UInt64.lt_iff_toNat_lt] at hroom ⊢
      simp at hsat hroom
      omega
    constructor
    · intro a b i ha hb
      rw [left, leafIndex_assigned] at ha hb
      split_ifs at ha hb with haddress hother hother
      · rw [haddress, hother]
      · cases ha
        exact absurd (hbelow b idx hb) (UInt64.lt_irrefl idx)
      · cases hb
        exact absurd (hbelow a idx ha) (UInt64.lt_irrefl idx)
      · exact hdb.distinct a b i ha hb
    · intro a i ha
      rw [left, leafIndex_assigned] at ha
      rw [left, nextLeafIndex_put_nextLeafIndexKey]
      split_ifs at ha with haddress
      · cases ha
        exact hsucc
      · exact UInt64.lt_trans (hbelow a i ha) hsucc

theorem LeafIndexEffect.leafIndex_kept {faults : LeafIndexFaults} {db : KvStore}
    {address : Address} {r : Except (ExecutorError × KvStore) (UInt64 × KvStore)}
    (h : LeafIndexEffect faults db address r) {a : Address} {idx : UInt64}
    (ha : leafIndex db a = some idx) : leafIndex (left r) a = some idx := by
  have hne : db (leafIndexKey address) = none → a ≠ address := by
    rintro hnew rfl
    simp [leafIndex, hnew] at ha
  cases h with
  | failed e | known bytes _ => exact ha
  | interrupted e i hnew _ _ _ _ _ =>
    rw [left, leafIndex_put_leafIndexKey, if_neg (hne hnew)]
    exact ha
  | assigned i hnew _ _ _ _ =>
    rw [left, leafIndex_assigned, if_neg (hne hnew)]
    exact ha

theorem leafIndex_persistAccountBlob (db : KvStore) (address : Address) (account : Account) :
    leafIndex (persistAccountBlob db address account) = leafIndex db := by
  funext a
  simp [leafIndex, persistAccountBlob, KvStore.put, leafIndexKey_ne_accountKey a]

theorem nextLeafIndex_persistAccountBlob (db : KvStore) (address : Address)
    (account : Account) :
    nextLeafIndex (persistAccountBlob db address account) = nextLeafIndex db := by
  simp [nextLeafIndex, persistAccountBlob, KvStore.put, nextLeafIndexKey_ne_accountKey address]

theorem left_setAccount_indices (jmtTree : JmtTree J) (faults : SetAccountFaults)
    (s : RocksDbStateManager J) (address : Address) (account : Account) :
    leafIndex (left (setAccount jmtTree faults s address account)).accountDb =
        leafIndex (left (getOrAssignLeafIndex faults.leafIndex s.accountDb address)) ∧
      nextLeafIndex (left (setAccount jmtTree faults s address account)).accountDb =
        nextLeafIndex (left (getOrAssignLeafIndex faults.leafIndex s.accountDb address)) := by
  have hdb := accountDb_setAccount jmtTree faults s address account
  cases hr : setAccount jmtTree faults s address account with
  | error failure =>
    rw [hr] at hdb
    exact ⟨congrArg leafIndex hdb, congrArg nextLeafIndex hdb⟩
  | ok pair =>
    rw [hr] at hdb
    rw [left, hdb]
    exact ⟨leafIndex_persistAccountBlob _ _ _, nextLeafIndex_persistAccountBlob _ _ _⟩

theorem hasLeafIndex_setAccount {faults : SetAccountFaults} {s s' : RocksDbStateManager J}
    {address : Address} {account : Account} {diff : StateDiff}
    (h : setAccount jmtTree faults s address account = .ok (diff, s')) (a : Address) :
    hasLeafIndex s'.accountDb a = (a = address || hasLeafIndex s.accountDb a) := by
  have hindex : ∀ db : KvStore, hasLeafIndex db a = (leafIndex db a).isSome := by
    intro db
    rw [hasLeafIndex, leafIndex, Option.isSome_map]
  have hleft := congrFun (left_setAccount_indices jmtTree faults s address account).1 a
  have heffect := setAccount_effect jmtTree faults s address account
  rw [h] at heffect hleft
  change leafIndex s'.accountDb a = _ at hleft
  rw [hindex, hindex, hleft]
  cases heffect with
  | written _ idx db path jmt hidx _ _ =>
    have hassign := getOrAssignLeafIndex_effect faults.leafIndex s.accountDb address
    rw [hidx] at hassign ⊢
    cases hassign with
    | known bytes hrecord =>
      by_cases ha : a = address
      · simp [left, ha, leafIndex, hrecord]
      · simp [left, ha]
    | assigned _ _ _ _ _ _ =>
      rw [left, leafIndex_assigned]
      by_cases ha : a = address
      · simp [ha]
      · simp [ha]

theorem Unique.congr {db db' : KvStore} (h : Unique db) (hleaf : leafIndex db' = leafIndex db)
    (hnext : nextLeafIndex db' = nextLeafIndex db) : Unique db' := by
  constructor
  · rw [hleaf]
    exact h.distinct
  · rw [hleaf, hnext]
    exact h.below

theorem Unique.setAccount {faults : SetAccountFaults} {s : RocksDbStateManager J}
    {address : Address} {account : Account} (h : Unique s.accountDb)
    (hcompletes : Completes faults.leafIndex s.accountDb address) :
    Unique (left (Faulty.setAccount jmtTree faults s address account)).accountDb := by
  obtain ⟨hleaf, hnext⟩ := left_setAccount_indices jmtTree faults s address account
  have hassigned := (getOrAssignLeafIndex_effect faults.leafIndex s.accountDb address).unique h
    hcompletes
  exact hassigned.congr hleaf hnext

/-- What happens to the store. A process that stops in a call leaves what a call leaves that
fails at the same operation, and finds some tree when it starts again. -/
inductive DbEvent (J : Type*) where
  | setAccount (address : Address) (account : Account) (faults : SetAccountFaults)
  | stopped (address : Address) (account : Account) (faults : SetAccountFaults) (found : J)
  | restarted (found : J)

def dbStep (jmtTree : JmtTree J) (s : RocksDbStateManager J) :
    DbEvent J → RocksDbStateManager J
  | .setAccount address account faults => left (setAccount jmtTree faults s address account)
  | .stopped address account faults found =>
    ⟨found, (left (setAccount jmtTree faults s address account)).accountDb⟩
  | .restarted found => ⟨found, s.accountDb⟩

def DbEvent.Completes (s : RocksDbStateManager J) : DbEvent J → Prop
  | .setAccount address _ faults => Faulty.Completes faults.leafIndex s.accountDb address
  | .stopped address _ faults _ => Faulty.Completes faults.leafIndex s.accountDb address
  | .restarted _ => True

theorem Unique.dbStep {s : RocksDbStateManager J} {event : DbEvent J}
    (h : Unique s.accountDb) (hcompletes : event.Completes s) :
    Unique (dbStep jmtTree s event).accountDb := by
  cases event with
  | setAccount address account faults | stopped address account faults found =>
    exact h.setAccount hcompletes
  | restarted found => exact h

theorem leafIndex_dbStep (s : RocksDbStateManager J) (event : DbEvent J) {a : Address}
    {idx : UInt64} (ha : leafIndex s.accountDb a = some idx) :
    leafIndex (dbStep jmtTree s event).accountDb a = some idx := by
  have hset : ∀ address account (faults : SetAccountFaults),
      leafIndex (left (setAccount jmtTree faults s address account)).accountDb a = some idx := by
    intro address account faults
    rw [(left_setAccount_indices jmtTree faults s address account).1]
    exact (getOrAssignLeafIndex_effect faults.leafIndex s.accountDb address).leafIndex_kept ha
  cases event with
  | setAccount address account faults | stopped address account faults found =>
    exact hset address account faults
  | restarted found => exact ha

/-- From an empty store on, over any calls with failing operations, stops and restarts: if every
new record is followed by the write of the counter, and the counter can grow, then no address is
ever given an index that another one has or had before. -/
theorem leafIndices_distinct (jmtTree : JmtTree J) (emptyTree : J)
    (events later : List (DbEvent J)) (s s' : RocksDbStateManager J)
    (hr : Run (fun s event s' => dbStep jmtTree s event = s') ⟨emptyTree, fun _ => none⟩
      events s)
    (hlater : Run (fun s event s' => dbStep jmtTree s event = s') s later s')
    (hcompletes : Along (fun s event s' => dbStep jmtTree s event = s')
      (fun s event => event.Completes s) ⟨emptyTree, fun _ => none⟩ (events ++ later))
    (a b : Address) (idx : UInt64) (ha : leafIndex s.accountDb a = some idx)
    (hb : leafIndex s'.accountDb b = some idx) : a = b := by
  have hempty : Unique fun _ => none := ⟨by simp [leafIndex], by simp [leafIndex]⟩
  have hunique := (run_append_iff.mpr ⟨s, hr, hlater⟩).invariant
    (I := fun s => Unique s.accountDb)
    (fun s event t h hok hstep => hstep ▸ h.dbStep hok) hcompletes hempty
  have hkept : leafIndex s'.accountDb a = some idx :=
    hlater.invariant_of_step (I := fun s => leafIndex s.accountDb a = some idx)
      (fun s event t h hstep => hstep ▸ leafIndex_dbStep s event h) ha
  exact hunique.distinct a b idx hkept hb

def afterFailedWrite : RocksDbStateManager Unit :=
  [.setAccount alice ⟨100, 0⟩ { writeAccount := some "IO error" }, .restarted ()].foldl
    (dbStep constantTree) ⟨(), fun _ => none⟩

theorem leafIndices_distinct_failedWrite :
    leafIndex afterFailedWrite.accountDb alice = some 1 ∧
      leafIndex (dbStep constantTree afterFailedWrite
        (.setAccount bob ⟨5, 0⟩ {})).accountDb bob = some 2 ∧
      ∀ a b idx, leafIndex afterFailedWrite.accountDb a = some idx →
        leafIndex (dbStep constantTree afterFailedWrite
          (.setAccount bob ⟨5, 0⟩ {})).accountDb b = some idx → a = b := by
  refine ⟨by decide +kernel, by decide +kernel, fun a b idx ha hb => ?_⟩
  refine leafIndices_distinct constantTree () _ [.setAccount bob ⟨5, 0⟩ {}] _ _
    (run_foldl _ _ _) (run_foldl _ _ _) ?_ a b idx ha hb
  refine ⟨fun _ _ _ _ => ⟨rfl, by decide +kernel⟩, ?_⟩
  rintro - rfl
  refine ⟨trivial, ?_⟩
  rintro - rfl
  refine ⟨fun _ _ _ _ => ⟨rfl, by decide +kernel⟩, ?_⟩
  rintro - rfl
  trivial

def lostCounter : SetAccountFaults :=
  { leafIndex := { writeNextLeafIndex := some "IO error: No space left on device" } }

def indicesAfter (events : List (DbEvent Unit)) : Option UInt64 × Option UInt64 :=
  let s := events.foldl (dbStep constantTree) ⟨(), fun _ => none⟩
  (leafIndex s.accountDb alice, leafIndex s.accountDb bob)

/-- The write of the counter fails, or the process stops before it. The next address gets the
same index. -/
theorem leafIndices_repeated :
    indicesAfter [.setAccount alice ⟨100, 0⟩ lostCounter, .setAccount bob ⟨5, 0⟩ {}] =
        (some 1, some 1) ∧
      indicesAfter [.stopped alice ⟨100, 0⟩ lostCounter (), .setAccount bob ⟨5, 0⟩ {}] =
        (some 1, some 1) := by
  decide +kernel

end RollupX.Executor.Faulty
