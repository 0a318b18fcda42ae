import RollupX.Model.Executor.Genesis
import RollupX.Verification.Executor.Engine

/-! What a restart of the executor does to the accounts.

The start seeds the genesis accounts whether or not the store is new, and seeding an account
overwrites it. -/

namespace RollupX.Executor

open Machine

variable {S : Type*} {rt : Runtime} {mgr : StateManager S}

namespace RocksDbStateManager

variable {J : Type*} {jmtTree : JmtTree J}

/-- Every leaf index in the store has eight bytes. -/
structure WellIndexed (db : KvStore) : Prop where
  leaf : ∀ a bytes, db (leafIndexKey a) = some bytes → bytes.length = 8
  next : ∀ bytes, db nextLeafIndexKey = some bytes → bytes.length = 8

theorem wellIndexed_empty : WellIndexed fun _ => none :=
  ⟨by simp, by simp⟩

theorem WellIndexed.put {db : KvStore} (h : WellIndexed db) (key value : List UInt8)
    (hvalue : value.length = 8 ∨ ∃ a, key = accountKey a) : WellIndexed (db.put key value) := by
  constructor
  · intro a bytes hb
    by_cases hkey : leafIndexKey a = key
    · rcases hvalue with hlen | ⟨b, rfl⟩
      · rw [← hkey, KvStore.put, Function.update_self] at hb
        rw [← Option.some.inj hb]
        exact hlen
      · exact absurd hkey (leafIndexKey_ne_accountKey a b)
    · rw [KvStore.put, Function.update_of_ne hkey] at hb
      exact h.leaf a bytes hb
  · intro bytes hb
    by_cases hkey : nextLeafIndexKey = key
    · rcases hvalue with hlen | ⟨b, rfl⟩
      · rw [← hkey, KvStore.put, Function.update_self] at hb
        rw [← Option.some.inj hb]
        exact hlen
      · exact absurd hkey (nextLeafIndexKey_ne_accountKey b)
    · rw [KvStore.put, Function.update_of_ne hkey] at hb
      exact h.next bytes hb

theorem WellIndexed.loadNextLeafIndex {db : KvStore} (h : WellIndexed db) :
    ∃ idx, loadNextLeafIndex db = .ok idx := by
  unfold RocksDbStateManager.loadNextLeafIndex
  cases hn : db nextLeafIndexKey with
  | none => exact ⟨1, rfl⟩
  | some bytes => exact ⟨readIndex bytes, by simp [h.next bytes hn]⟩

theorem WellIndexed.getOrAssignLeafIndex {db : KvStore} (h : WellIndexed db) (a : Address) :
    ∃ idx db', getOrAssignLeafIndex db a = .ok (idx, db') ∧ WellIndexed db' := by
  unfold RocksDbStateManager.getOrAssignLeafIndex
  cases hleaf : db (leafIndexKey a) with
  | some bytes => exact ⟨readIndex bytes, db, by simp [h.leaf a bytes hleaf], h⟩
  | none =>
    obtain ⟨idx, hidx⟩ := h.loadNextLeafIndex
    refine ⟨idx, _, by simp only [hidx, bind, Except.bind, pure, Except.pure]; rfl, ?_⟩
    apply WellIndexed.put _ _ _ (.inl (Bytes.length_be _ _))
    exact h.put _ _ (.inl (Bytes.length_be _ _))

theorem writable (emptyTree : J)
    (hjmt : ∀ j w, ∃ r, jmtTree.extendWithProofs j w = .ok r) :
    (stateManager jmtTree emptyTree).Writable fun s => WellIndexed s.accountDb where
  exists_ok := by
    intro s a account hs
    obtain ⟨idx, db, hidx, -⟩ := hs.getOrAssignLeafIndex a
    obtain ⟨⟨path, jmt⟩, hext⟩ :=
      hjmt s.jmt ⟨keyFromAddress a, idx, accountValueHash account⟩
    simp [stateManager, setAccount, hidx, hext]
  keeps := by
    intro s s' a account diff hs hset
    obtain ⟨idx, db, hidx, hdb, -⟩ := setAccount_ok jmtTree hset
    obtain ⟨idx', db', hidx', hgood⟩ := hs.getOrAssignLeafIndex a
    rw [hidx] at hidx'
    cases hidx'
    rw [hdb]
    exact hgood.put _ _ (.inr ⟨a, rfl⟩)

end RocksDbStateManager

/-- The addresses that are seeded: those before the first entry that is no address. -/
def leadingAddresses : List (List Char) → List Address
  | [] => []
  | raw :: rest =>
    match parseAddressHex raw with
    | .error _ => []
    | .ok address => address :: leadingAddresses rest

def GenesisEnv.seeded (env : GenesisEnv) : List Address :=
  leadingAddresses env.entries

theorem seedEntries_spec (hm : mgr.Lawful) {good : S → Prop} (hw : mgr.Writable good)
    (balance : UInt64) (entries : List (List Char)) {s : S} (hs : good s) :
    good (seedEntries mgr balance s entries).1 ∧
      ∀ a, mgr.getAccount (seedEntries mgr balance s entries).1 a =
        if a ∈ leadingAddresses entries then ⟨balance, 0⟩ else mgr.getAccount s a := by
  induction entries generalizing s with
  | nil => simp [seedEntries, leadingAddresses, hs]
  | cons raw rest ih =>
    cases hraw : parseAddressHex raw with
    | error e => simp [seedEntries, leadingAddresses, hraw, hs]
    | ok address =>
      obtain ⟨⟨diff, s'⟩, hset⟩ := hw.exists_ok address ⟨balance, 0⟩ hs
      simp only [seedEntries, leadingAddresses, hraw, hset, List.mem_cons]
      obtain ⟨hgood, hget⟩ := ih (hw.keeps hs hset)
      refine ⟨hgood, fun a => ?_⟩
      rw [hget, hm.getAccount_setAccount hset]
      by_cases hrest : a ∈ leadingAddresses rest
      · simp [hrest]
      · by_cases ha : a = address
        · simp [ha]
        · simp [hrest, ha]

theorem startServer_unchanged_iff (hm : mgr.Lawful) {good : S → Prop}
    (hw : mgr.Writable good) (env : GenesisEnv) {s : S} (hs : good s) :
    (∀ a, mgr.getAccount (startServer env mgr s).1 a = mgr.getAccount s a) ↔
      ∀ a ∈ env.seeded, mgr.getAccount s a = ⟨env.genesisBalance, 0⟩ := by
  have hget := (seedEntries_spec hm hw env.genesisBalance env.entries hs).2
  constructor
  · intro h a ha
    rw [← h a]
    exact (hget a).trans (if_pos ha)
  · intro h a
    by_cases ha : a ∈ env.seeded
    · rw [h a ha]
      exact (hget a).trans (if_pos ha)
    · exact (hget a).trans (if_neg ha)

/-- What happens to a store: the executor is started on it, or it processes a batch. -/
inductive StoreEvent where
  | start (env : GenesisEnv)
  | batch (batchId : String) (txs : List Transaction)
  deriving DecidableEq, Repr

/-- A batch has to succeed. A start may fail at an entry that is no address, and what was
seeded before it stays in the store. -/
def storeStep (rt : Runtime) (mgr : StateManager S) (s : S) : StoreEvent → Option S
  | .start env => some (startServer env mgr s).1
  | .batch batchId txs =>
    match executeBatch rt mgr s batchId txs with
    | (_, .error _) => none
    | (s', .ok _) => some s'

theorem storeStep_writable (hm : mgr.Lawful) {good : S → Prop} (hw : mgr.Writable good)
    {s s' : S} {event : StoreEvent} (hs : good s) (hstep : storeStep rt mgr s event = some s') :
    good s' := by
  cases event with
  | start env =>
    rw [← Option.some.inj hstep]
    exact (seedEntries_spec hm hw env.genesisBalance env.entries hs).1
  | batch batchId txs =>
    simp only [storeStep] at hstep
    split at hstep
    · cases hstep
    · rename_i k trace hbatch
      cases hstep
      obtain ⟨l, hr, rfl, -⟩ := executeBatch_ok_iff.mp hbatch
      exact hr.invariant_of_step (I := fun l => good l.state)
        (fun _ _ _ hl hstep => hstep.writable hw hl) hs

/-- From a new directory on, over any starts and successful batches: a restart leaves every
account unchanged exactly when each address it seeds holds the genesis balance and nonce
zero already. -/
theorem restart_unchanged_iff {J : Type*} (jmtTree : JmtTree J) (emptyTree : J) (rt : Runtime)
    (hjmt : ∀ j w, ∃ r, jmtTree.extendWithProofs j w = .ok r)
    (history : List StoreEvent) (s : RocksDbStateManager J)
    (hr : Run (fun s event s' =>
        storeStep rt (RocksDbStateManager.stateManager jmtTree emptyTree) s event = some s')
      ⟨emptyTree, fun _ => none⟩ history s) (env : GenesisEnv) :
    (∀ a, (startServer env (RocksDbStateManager.stateManager jmtTree emptyTree) s).1.getAccount
        a = s.getAccount a) ↔
      ∀ a ∈ env.seeded, s.getAccount a = ⟨env.genesisBalance, 0⟩ := by
  have hm := RocksDbStateManager.lawful jmtTree emptyTree
  have hw := RocksDbStateManager.writable emptyTree hjmt
  have hs := hr.invariant_of_step (fun _ _ _ hk hstep => storeStep_writable hm hw hk hstep)
    RocksDbStateManager.wellIndexed_empty
  exact startServer_unchanged_iff hm hw env hs

def constantTree : JmtTree Unit where
  extendWithProofs _ _ := .ok ([], ())
  latestRootHash _ := Vector.replicate 32 0

def aliceGenesis : GenesisEnv :=
  ⟨some "0x0101010101010101010101010101010101010101", some "100"⟩

theorem restart_unchanged_zeroPayment :
    ∃ s, Run (fun s event s' => storeStep localRuntime
          (RocksDbStateManager.stateManager constantTree ()) s event = some s')
        ⟨(), fun _ => none⟩ [.start aliceGenesis, .batch "b1" [payment bob alice 0 0]] s ∧
      s.getAccount bob = ⟨0, 1⟩ ∧
      ∀ a, (startServer aliceGenesis
        (RocksDbStateManager.stateManager constantTree ()) s).1.getAccount a =
          s.getAccount a := by
  obtain ⟨s, hr, hview⟩ := exists_run_of_foldlM
    (storeStep localRuntime (RocksDbStateManager.stateManager constantTree ()))
    ⟨(), fun _ => none⟩ [.start aliceGenesis, .batch "b1" [payment bob alice 0 0]]
    (fun s => (s.getAccount alice, s.getAccount bob)) (b := (⟨100, 0⟩, ⟨0, 1⟩))
    (by decide +kernel)
  have hseeded : aliceGenesis.seeded = [alice] := by decide +kernel
  have hbalance : aliceGenesis.genesisBalance = 100 := by decide +kernel
  refine ⟨s, hr, congrArg Prod.snd hview, (restart_unchanged_iff constantTree () localRuntime
    (fun _ _ => ⟨_, rfl⟩) _ s hr aliceGenesis).mpr ?_⟩
  rw [hseeded, hbalance]
  intro a ha
  rw [List.mem_singleton.mp ha]
  exact congrArg Prod.fst hview

/-- `alice` spends 10 of the seeded 100, and the restart gives back both the amount and the
nonce. -/
theorem restart_resets_payment :
    ∃ s, Run (fun s event s' => storeStep localRuntime
          (RocksDbStateManager.stateManager constantTree ()) s event = some s')
        ⟨(), fun _ => none⟩ [.start aliceGenesis, .batch "b1" [payment alice bob 10 0]] s ∧
      s.getAccount alice = ⟨90, 1⟩ ∧
      (startServer aliceGenesis
        (RocksDbStateManager.stateManager constantTree ()) s).1.getAccount alice =
          ⟨100, 0⟩ := by
  obtain ⟨s, hr, hview⟩ := exists_run_of_foldlM
    (storeStep localRuntime (RocksDbStateManager.stateManager constantTree ()))
    ⟨(), fun _ => none⟩ [.start aliceGenesis, .batch "b1" [payment alice bob 10 0]]
    (fun s => (s.getAccount alice, (startServer aliceGenesis
      (RocksDbStateManager.stateManager constantTree ()) s).1.getAccount alice))
    (b := (⟨90, 1⟩, ⟨100, 0⟩)) (by decide +kernel)
  exact ⟨s, hr, congrArg Prod.fst hview, congrArg Prod.snd hview⟩

end RollupX.Executor
