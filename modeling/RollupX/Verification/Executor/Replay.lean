import RollupX.Verification.Executor.Conservation

/-! Replay protection over sequences of batches. An included transaction carries its sender's stored
nonce. -/

namespace RollupX.Executor

open Machine

variable {S : Type*} {rt : Runtime} {mgr : StateManager S} {batchId : String}

def replayKey (tx : Transaction) : Address × ℕ :=
  (tx.sender, tx.nonce.toNat)

def RaisesNonce (rt : Runtime) (mgr : StateManager S) (batchId : String) (l : BatchLoop S)
    (tx : Transaction) : Prop :=
  Admitted rt mgr batchId l tx → ∀ l', TxStep rt mgr batchId l tx l' →
    (mgr.getAccount l'.state tx.sender).nonce.toNat =
      (mgr.getAccount l.state tx.sender).nonce.toNat + 1

def NonceBelowMax (rt : Runtime) (mgr : StateManager S) (batchId : String) (l : BatchLoop S)
    (tx : Transaction) : Prop :=
  Admitted rt mgr batchId l tx →
    (mgr.getAccount l.state tx.sender).nonce.toNat < 2 ^ 64 - 1

def NotSelfTransfer (rt : Runtime) (mgr : StateManager S) (batchId : String)
    (l : BatchLoop S) (tx : Transaction) : Prop :=
  Admitted rt mgr batchId l tx → tx.sender ≠ tx.receiver

theorem nonceBelowMax_of_lt {l : BatchLoop S} {tx : Transaction}
    (h : tx.nonce.toNat < 2 ^ 64 - 1) : NonceBelowMax rt mgr batchId l tx := by
  intro hadm
  rw [hadm.nonce_eq]
  exact h

theorem notSelfTransfer_of_ne {l : BatchLoop S} {tx : Transaction}
    (h : tx.sender ≠ tx.receiver) : NotSelfTransfer rt mgr batchId l tx :=
  fun _ => h

theorem nonce_of_self {l l' : BatchLoop S} {tx : Transaction} (hm : mgr.Lawful)
    (hstep : TxStep rt mgr batchId l tx l') (h : Admitted rt mgr batchId l tx)
    (hself : tx.sender = tx.receiver) :
    (mgr.getAccount l'.state tx.sender).nonce = (mgr.getAccount l.state tx.sender).nonce := by
  rw [hstep.getAccount hm h, hself, Function.update_self]
  rfl

theorem raisesNonce_iff {l l' : BatchLoop S} {tx : Transaction} (hm : mgr.Lawful)
    (hstep : TxStep rt mgr batchId l tx l') (hmax : NonceBelowMax rt mgr batchId l tx) :
    RaisesNonce rt mgr batchId l tx ↔ NotSelfTransfer rt mgr batchId l tx := by
  constructor
  · intro h hadm hself
    have hraise := h hadm l' hstep
    rw [nonce_of_self hm hstep hadm hself] at hraise
    omega
  · intro h hadm k hk
    have hnonce := congrFun (hk.nonce_eq_transfer hm hadm (h hadm) (hmax hadm)) tx.sender
    simpa [Ledger.transfer, StateManager.ledger] using hnonce

theorem TxStep.spent {l l' : BatchLoop S} {tx : Transaction} (hm : mgr.Lawful)
    (hstep : TxStep rt mgr batchId l tx l')
    (hok : NonceBelowMax rt mgr batchId l tx ∧ NotSelfTransfer rt mgr batchId l tx)
    {past : List (Address × ℕ)}
    (h : Ledger.Spent (mgr.ledger l.state).nonce (past ++ l.executed.map replayKey)) :
    Ledger.Spent (mgr.ledger l'.state).nonce (past ++ l'.executed.map replayKey) := by
  by_cases hadm : Admitted rt mgr batchId l tx
  · have hkey : replayKey tx = (tx.sender, (mgr.ledger l.state).nonce tx.sender) := by
      simp [replayKey, StateManager.ledger, hadm.nonce_eq]
    rw [hstep.executed hadm, hstep.nonce_eq_transfer hm hadm (hok.2 hadm) (hok.1 hadm),
      List.map_append, ← List.append_assoc, List.map_singleton, hkey]
    exact h.advance tx.sender
  · obtain ⟨hs, -, he, -⟩ := hstep.frame hadm
    rw [hs, he]
    exact h

theorem CallStep.spent {e e' : Session S} {call : String × List Transaction}
    (hm : mgr.Lawful) (hcall : CallStep rt mgr e call e')
    (hok : Along (TxStep rt mgr call.1)
      (fun l tx => NonceBelowMax rt mgr call.1 l tx ∧ NotSelfTransfer rt mgr call.1 l tx)
      (BatchLoop.start mgr e.state) call.2)
    (h : Ledger.Spent (mgr.ledger e.state).nonce (e.included.map replayKey)) :
    Ledger.Spent (mgr.ledger e'.state).nonce (e'.included.map replayKey) := by
  obtain ⟨l, hr, rfl⟩ := callStep_iff.mp hcall
  have hl : Ledger.Spent (mgr.ledger l.state).nonce
      (e.included.map replayKey ++ l.executed.map replayKey) := by
    refine hr.invariant (I := fun k => Ledger.Spent (mgr.ledger k.state).nonce
      (e.included.map replayKey ++ k.executed.map replayKey)) ?_ hok ?_
    · intro k tx k' hk hkok hstep
      exact hstep.spent hm hkok hk
    · simpa [BatchLoop.start] using h
  simpa [Session.included, buildTrace] using hl

/-- Over calls that all return and include only transactions of senders whose nonce can
still grow, every included transaction raises its sender's nonce by one and no pair of
sender and nonce is included twice, exactly when no included transaction is a
self-transfer. -/
theorem no_replay_iff (rt : Runtime) (hm : mgr.Lawful) (s : S)
    (calls : List (String × List Transaction)) (e : Session S)
    (hr : Run (CallStep rt mgr) (Session.start s) calls e)
    (hmax : EachIteration rt mgr (NonceBelowMax rt mgr) (Session.start s) calls) :
    (EachIteration rt mgr (RaisesNonce rt mgr) (Session.start s) calls ∧
        (e.included.map replayKey).Nodup) ↔
      EachIteration rt mgr (NotSelfTransfer rt mgr) (Session.start s) calls := by
  constructor
  · intro h
    have hboth : EachIteration rt mgr
        (fun id l tx => NonceBelowMax rt mgr id l tx ∧ RaisesNonce rt mgr id l tx)
        (Session.start s) calls :=
      (hmax.and h.1).mono fun _ _ hok => hok.1.and hok.2
    refine hboth.mono hr fun id l tx l' hstep hok => ?_
    exact (raisesNonce_iff hm hstep hok.1).mp hok.2
  · intro h
    have hboth : EachIteration rt mgr
        (fun id l tx => NonceBelowMax rt mgr id l tx ∧ NotSelfTransfer rt mgr id l tx)
        (Session.start s) calls :=
      (hmax.and h).mono fun _ _ hok => hok.1.and hok.2
    refine ⟨?_, ?_⟩
    · refine hboth.mono hr fun id l tx l' hstep hok => ?_
      exact (raisesNonce_iff hm hstep hok.1).mpr hok.2
    · have hspent := hr.invariant
        (I := fun k => Ledger.Spent (mgr.ledger k.state).nonce (k.included.map replayKey))
        (fun k call k' hk hok hcall => hcall.spent hm hok hk) hboth
        (Ledger.Spent.nil _)
      exact hspent.nodup

theorem no_replay_payments :
    ∃ e, Run (CallStep localRuntime (InMemoryStateManager.stateManager Sha256.hash))
        (Session.start aliceStore)
        [("b1", [payment alice bob 10 0]), ("b2", [payment alice bob 10 1])] e ∧
      e.included = [payment alice bob 10 0, payment alice bob 10 1] ∧
      (e.included.map replayKey).Nodup := by
  obtain ⟨e, hr, he⟩ := exists_run_of_map localRuntime
    (InMemoryStateManager.stateManager Sha256.hash) aliceStore
    [("b1", [payment alice bob 10 0]), ("b2", [payment alice bob 10 1])]
    Session.included (b := [payment alice bob 10 0, payment alice bob 10 1])
    (by decide +kernel)
  have hmax : EachIteration localRuntime (InMemoryStateManager.stateManager Sha256.hash)
      (NonceBelowMax localRuntime (InMemoryStateManager.stateManager Sha256.hash))
      (Session.start aliceStore)
      [("b1", [payment alice bob 10 0]), ("b2", [payment alice bob 10 1])] := by
    apply EachIteration.of_forall
    intro call hcall tx htx l
    apply nonceBelowMax_of_lt
    clear l
    revert call tx
    decide
  have htwo : EachIteration localRuntime (InMemoryStateManager.stateManager Sha256.hash)
      (NotSelfTransfer localRuntime (InMemoryStateManager.stateManager Sha256.hash))
      (Session.start aliceStore)
      [("b1", [payment alice bob 10 0]), ("b2", [payment alice bob 10 1])] := by
    apply EachIteration.of_forall
    intro call hcall tx htx l
    apply notSelfTransfer_of_ne
    clear l
    revert call tx
    decide
  exact ⟨e, hr, he, ((no_replay_iff localRuntime (InMemoryStateManager.lawful Sha256.hash)
    aliceStore _ e hr hmax).mpr htwo).2⟩

/-- The same self-transfer is included by two batches. The nonce it carries stays current,
and the account grows each time. -/
theorem replay_selfTransfer :
    (∃ e, Run (CallStep localRuntime (InMemoryStateManager.stateManager Sha256.hash))
        (Session.start aliceStore)
        [("b1", [payment alice alice 10 0]), ("b2", [payment alice alice 10 0])] e ∧
      e.included = [payment alice alice 10 0, payment alice alice 10 0] ∧
      ¬(e.included.map replayKey).Nodup ∧
      e.state.getAccount alice = ⟨120, 0⟩) ∧
    EachIteration localRuntime (InMemoryStateManager.stateManager Sha256.hash)
      (NonceBelowMax localRuntime (InMemoryStateManager.stateManager Sha256.hash))
      (Session.start aliceStore)
      [("b1", [payment alice alice 10 0]), ("b2", [payment alice alice 10 0])] := by
  refine ⟨?_, ?_⟩
  · obtain ⟨e, hr, he⟩ := exists_run_of_map localRuntime
      (InMemoryStateManager.stateManager Sha256.hash) aliceStore
      [("b1", [payment alice alice 10 0]), ("b2", [payment alice alice 10 0])]
      (fun e => (e.included, e.state.getAccount alice))
      (b := ([payment alice alice 10 0, payment alice alice 10 0], ⟨120, 0⟩))
      (by decide +kernel)
    obtain ⟨hincluded, haccount⟩ := Prod.mk.inj he
    refine ⟨e, hr, hincluded, ?_, haccount⟩
    rw [hincluded]
    decide
  · apply EachIteration.of_forall
    intro call hcall tx htx l
    apply nonceBelowMax_of_lt
    clear l
    revert call tx
    decide

end RollupX.Executor
