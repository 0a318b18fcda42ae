import RollupX.Verification.Executor.Restart
import RollupX.Verification.Executor.Trace

/-! The two stores of the executor behave alike: both are maps from addresses to accounts. -/

namespace RollupX.Executor

open Machine

variable {S : Type*} {mgr : StateManager S}

/-- The calls of a store that read or change accounts. -/
inductive StoreCall where
  | setAccount (address : Address) (account : Account)
  | getAccount (address : Address)
  | resetToGenesis
  deriving DecidableEq, Repr

/-- What is compared of an answer. A diff counts with its address and its old and new values,
not with its proof. -/
inductive StoreAnswer where
  | diff (write : Write Address Account)
  | account (account : Account)
  | reset
  | failed (error : ExecutorError)

def accountsStep (accounts : Address → Account) : StoreCall → (Address → Account) × StoreAnswer
  | .setAccount address account =>
    (Function.update accounts address account, .diff ⟨address, accounts address, account⟩)
  | .getAccount address => (accounts, .account (accounts address))
  | .resetToGenesis => (fun _ => default, .reset)

def StateManager.step (mgr : StateManager S) (s : S) : StoreCall → S × StoreAnswer
  | .setAccount address account =>
    match mgr.setAccount s address account with
    | .error (e, s') => (s', .failed e)
    | .ok (diff, s') => (s', .diff diff.write)
  | .getAccount address => (s, .account (mgr.getAccount s address))
  | .resetToGenesis =>
    match mgr.resetToGenesis s with
    | .error (e, s') => (s', .failed e)
    | .ok s' => (s', .reset)

/-- A reset gives an empty store, which can be written. -/
def StateManager.Resets (mgr : StateManager S) (good : S → Prop) : Prop :=
  ∀ s, good s → ∃ s', mgr.resetToGenesis s = .ok s' ∧ good s' ∧
    mgr.getAccount s' = fun _ => default

/-- A store that keeps its laws answers like the map of its accounts. -/
theorem answers_step_eq (hm : mgr.Lawful) {good : S → Prop} (hw : mgr.Writable good)
    (hr : mgr.Resets good) {s : S} (hs : good s) (calls : List StoreCall) :
    answers mgr.step s calls = answers accountsStep (mgr.getAccount s) calls := by
  refine answers_eq (R := fun s accounts => good s ∧ mgr.getAccount s = accounts)
    ?_ ⟨hs, rfl⟩ calls
  rintro s accounts call ⟨hs, rfl⟩
  cases call with
  | setAccount address account =>
    obtain ⟨⟨diff, s'⟩, hset⟩ := hw.exists_ok address account hs
    obtain ⟨ha, hob, hnb, hon, hnn⟩ := hm.diff_setAccount hset
    simp only [StateManager.step, accountsStep, hset]
    refine ⟨?_, hw.keeps hs hset, hm.getAccount_setAccount hset⟩
    simp [StateDiff.write, ha, hob, hnb, hon, hnn]
  | getAccount address => exact ⟨rfl, hs, rfl⟩
  | resetToGenesis =>
    obtain ⟨s', hreset, hs', haccounts⟩ := hr s hs
    simp only [StateManager.step, accountsStep, hreset]
    exact ⟨trivial, hs', haccounts⟩

theorem InMemoryStateManager.writable (sha256 : List UInt8 → Hash) :
    (stateManager sha256).Writable fun _ => True :=
  ⟨fun _ _ _ => ⟨_, rfl⟩, fun _ _ => trivial⟩

theorem InMemoryStateManager.getAccount_default (sha256 : List UInt8 → Hash) :
    (InMemoryStateManager.default sha256).getAccount = fun _ => Inhabited.default := by
  funext a
  simp [getAccount, InMemoryStateManager.default]

theorem InMemoryStateManager.resets (sha256 : List UInt8 → Hash) :
    (stateManager sha256).Resets fun _ => True :=
  fun _ _ => ⟨_, rfl, trivial, getAccount_default sha256⟩

theorem RocksDbStateManager.resets {J : Type*} (jmtTree : JmtTree J) (emptyTree : J) :
    (stateManager jmtTree emptyTree).Resets fun s => WellIndexed s.accountDb :=
  fun _ _ => ⟨_, rfl, wellIndexed_empty, rfl⟩

/-- Started empty, and with a tree whose updates succeed, the RocksDB store answers every
sequence of calls as the in-memory store does. -/
theorem backends_agree (sha256 : List UInt8 → Hash) {J : Type*} (jmtTree : JmtTree J)
    (emptyTree : J) (hjmt : ∀ j w, ∃ r, jmtTree.extendWithProofs j w = .ok r)
    (calls : List StoreCall) :
    answers (RocksDbStateManager.stateManager jmtTree emptyTree).step
        ⟨emptyTree, fun _ => none⟩ calls =
      answers (InMemoryStateManager.stateManager sha256).step
        (InMemoryStateManager.default sha256) calls := by
  have hrocks := answers_step_eq (RocksDbStateManager.lawful jmtTree emptyTree)
    (RocksDbStateManager.writable emptyTree hjmt)
    (RocksDbStateManager.resets jmtTree emptyTree)
    (s := ⟨emptyTree, fun _ => none⟩) RocksDbStateManager.wellIndexed_empty calls
  have hmemory := answers_step_eq (InMemoryStateManager.lawful sha256)
    (InMemoryStateManager.writable sha256) (InMemoryStateManager.resets sha256)
    (s := InMemoryStateManager.default sha256) trivial calls
  have hempty : (InMemoryStateManager.stateManager sha256).getAccount
      (InMemoryStateManager.default sha256) = fun _ => default :=
    InMemoryStateManager.getAccount_default sha256
  rw [hrocks, hmemory, hempty]
  rfl

theorem backends_agree_reset :
    (∀ j w, ∃ r, constantTree.extendWithProofs j w = .ok r) ∧
      answers (RocksDbStateManager.stateManager constantTree ()).step ⟨(), fun _ => none⟩
          [.setAccount alice ⟨100, 0⟩, .setAccount alice ⟨90, 1⟩, .getAccount alice,
            .resetToGenesis, .getAccount alice] =
        answers memory.step (InMemoryStateManager.default Sha256.hash)
          [.setAccount alice ⟨100, 0⟩, .setAccount alice ⟨90, 1⟩, .getAccount alice,
            .resetToGenesis, .getAccount alice] := by
  have hjmt : ∀ j w, ∃ r, constantTree.extendWithProofs j w = .ok r := fun _ _ => ⟨_, rfl⟩
  exact ⟨hjmt, backends_agree Sha256.hash constantTree () hjmt _⟩

end RollupX.Executor
