import Mathlib.Data.List.Forall2
import RollupX.Library.Fallible
import RollupX.Library.KeyedHistory
import RollupX.Verification.Executor.Engine

/-! What a trace says about the batch it was made for: the outcomes, the included transactions
and the diffs tell the same story, and that story can be told again. -/

namespace RollupX.Executor

open Machine

variable {S : Type*} {rt : Runtime} {mgr : StateManager S} {batchId : String}

def ReportsOn (rt : Runtime) (tx : Transaction) (outcome : TxExecutionOutcome) : Prop :=
  outcome.txHash = txHashPrehash rt tx ∧ outcome.senderPre.address = tx.sender ∧
    outcome.receiverPre.address = tx.receiver

def includedOf (txs : List Transaction) (outcomes : List TxExecutionOutcome) :
    List Transaction :=
  ((txs.zip outcomes).filter fun entry => entry.2.included).map Prod.fst

def StateDiff.write (diff : StateDiff) : Write Address Account :=
  ⟨diff.account, ⟨diff.oldBalance, diff.oldNonce⟩, ⟨diff.newBalance, diff.newNonce⟩⟩

theorem includedOf_concat {txs : List Transaction} {outcomes : List TxExecutionOutcome}
    (hlength : txs.length = outcomes.length) (tx : Transaction) (outcome : TxExecutionOutcome) :
    includedOf (txs ++ [tx]) (outcomes ++ [outcome]) =
      includedOf txs outcomes ++ if outcome.included then [tx] else [] := by
  unfold includedOf
  rw [List.zip_append hlength, List.filter_append, List.map_append]
  cases hincluded : outcome.included with
  | false | true => simp [hincluded]

theorem write_setAccount (hm : mgr.Lawful) {s s' : S} {address : Address} {account : Account}
    {diff : StateDiff} (root : Hash) (h : mgr.setAccount s address account = .ok (diff, s')) :
    (withRoot diff root).write = ⟨address, mgr.getAccount s address, account⟩ := by
  obtain ⟨ha, hob, hnb, hon, hnn⟩ := hm.diff_setAccount h
  simp [StateDiff.write, withRoot, ha, hob, hnb, hon, hnn]

/-- What the accumulators of the loop say after the transactions `done`. -/
structure Chronicle (rt : Runtime) (mgr : StateManager S) (s : S) (done : List Transaction)
    (l : BatchLoop S) : Prop where
  outcomes : List.Forall₂ (ReportsOn rt) done l.outcomes
  executed : includedOf done l.outcomes = l.executed
  diffs : l.diffs.map StateDiff.account = l.executed.flatMap fun tx => [tx.sender, tx.receiver]
  replays : Write.Replays (mgr.getAccount s) (l.diffs.map StateDiff.write)
  accounts : Write.applyAll (mgr.getAccount s) (l.diffs.map StateDiff.write) =
    mgr.getAccount l.state

theorem Chronicle.start (rt : Runtime) (mgr : StateManager S) (s : S) :
    Chronicle rt mgr s [] (BatchLoop.start mgr s) :=
  ⟨.nil, rfl, rfl, trivial, rfl⟩

theorem Chronicle.step (hm : mgr.Lawful) {s : S} {done : List Transaction} {l l' : BatchLoop S}
    {tx : Transaction} (h : Chronicle rt mgr s done l) (hstep : TxStep rt mgr batchId l tx l') :
    Chronicle rt mgr s (done ++ [tx]) l' := by
  have hlength := h.outcomes.length_eq
  by_cases hadm : Admitted rt mgr batchId l tx
  · obtain ⟨d₁, s₁, d₂, s₂, h₁, h₂, rfl⟩ := executeTx_of_admitted hadm hstep
    have hwrites : (l.push rt mgr tx d₁ d₂ s₂).diffs.map StateDiff.write =
        l.diffs.map StateDiff.write ++
          [⟨tx.sender, mgr.getAccount l.state tx.sender,
              debited tx (mgr.getAccount l.state tx.sender)⟩,
            ⟨tx.receiver, mgr.getAccount s₁ tx.receiver,
              credited tx (mgr.getAccount l.state tx.receiver)⟩] := by
      simp [BatchLoop.push, write_setAccount hm _ h₁, write_setAccount hm _ h₂]
    have hs₁ := hm.getAccount_setAccount h₁
    refine ⟨?_, ?_, ?_, ?_, ?_⟩
    · exact List.rel_append h.outcomes (.cons ⟨rfl, rfl, rfl⟩ .nil)
    · simp [BatchLoop.push, includedOf_concat hlength, h.executed, includedOutcome]
    · simp [BatchLoop.push, h.diffs, withRoot, (hm.diff_setAccount h₁).1,
        (hm.diff_setAccount h₂).1]
    · rw [hwrites, Write.replays_append_iff, h.accounts]
      exact ⟨h.replays, rfl, by rw [hs₁], trivial⟩
    · rw [hwrites, Write.applyAll_append, h.accounts]
      change _ = mgr.getAccount s₂
      rw [hm.getAccount_setAccount h₂, hs₁]
      rfl
  · obtain ⟨why, he⟩ := executeTx_of_not_admitted hadm
    rw [TxStep, he] at hstep
    cases hstep
    refine ⟨?_, ?_, h.diffs, h.replays, h.accounts⟩
    · exact List.rel_append h.outcomes (.cons ⟨rfl, rfl, rfl⟩ .nil)
    · simp [includedOf_concat hlength, h.executed, rejectedOutcome]

theorem chronicle_run (hm : mgr.Lawful) {s : S} {txs : List Transaction} {l : BatchLoop S}
    (hr : Run (TxStep rt mgr batchId) (BatchLoop.start mgr s) txs l) :
    Chronicle rt mgr s txs l :=
  hr.history (I := Chronicle rt mgr s) (fun _ _ _ _ h hstep => h.step hm hstep)
    (Chronicle.start rt mgr s)

/-- A returned trace has one outcome for each transaction, in order. Its executed transactions
are those with an included outcome. It has two diffs for each of them, for the sender and then
for the receiver, and replaying the diffs on the accounts before the batch gives the accounts
after it. -/
theorem executeBatch_chronicle (rt : Runtime) (hm : mgr.Lawful) {s s' : S} {batchId : String}
    {txs : List Transaction} {trace : ExecutionTraceV1}
    (h : executeBatch rt mgr s batchId txs = (s', .ok trace)) :
    List.Forall₂ (ReportsOn rt) txs trace.txOutcomes ∧
      trace.executedTransactions = includedOf txs trace.txOutcomes ∧
      trace.stateDiffs.map StateDiff.account =
        trace.executedTransactions.flatMap (fun tx => [tx.sender, tx.receiver]) ∧
      Write.Replays (mgr.getAccount s) (trace.stateDiffs.map StateDiff.write) ∧
      Write.applyAll (mgr.getAccount s) (trace.stateDiffs.map StateDiff.write) =
        mgr.getAccount s' ∧
      ∀ a ∉ trace.stateDiffs.map StateDiff.account, mgr.getAccount s' a = mgr.getAccount s a := by
  obtain ⟨l, hr, rfl, rfl⟩ := executeBatch_ok_iff.mp h
  have hl := chronicle_run hm hr
  refine ⟨hl.outcomes, hl.executed.symm, hl.diffs, hl.replays, hl.accounts, fun a ha => ?_⟩
  rw [← hl.accounts]
  apply Write.applyAll_of_not_mem
  intro w hw hkey
  obtain ⟨diff, hdiff, rfl⟩ := List.mem_map.mp hw
  exact ha (hkey ▸ List.mem_map_of_mem hdiff)

theorem exists_trace_of_map {β : Type} (rt : Runtime) (mgr : StateManager S) (s : S)
    (batchId : String) (txs : List Transaction) (f : ExecutionTraceV1 → β) {b : β}
    (h : (executeBatch rt mgr s batchId txs).2.map f = .ok b) :
    ∃ s' trace, executeBatch rt mgr s batchId txs = (s', .ok trace) ∧ f trace = b := by
  obtain ⟨trace, htrace, hb⟩ := Fallible.map_ok_iff.mp h
  exact ⟨_, trace, Prod.ext rfl htrace, hb⟩

def mixedBatch : List Transaction :=
  [payment alice alice 30 0, payment alice bob 10 7, payment alice bob 20 0]

theorem executeBatch_chronicle_mixedBatch :
    ∃ s' trace, executeBatch localRuntime memory aliceStore "b1" mixedBatch = (s', .ok trace) ∧
      trace.executedTransactions = [payment alice alice 30 0, payment alice bob 20 0] ∧
      trace.stateDiffs.map StateDiff.account = [alice, alice, alice, bob] ∧
      Write.Replays (memory.getAccount aliceStore) (trace.stateDiffs.map StateDiff.write) := by
  obtain ⟨s', trace, h, hexecuted⟩ := exists_trace_of_map localRuntime memory aliceStore "b1"
    mixedBatch ExecutionTraceV1.executedTransactions
    (b := [payment alice alice 30 0, payment alice bob 20 0]) (by decide +kernel)
  obtain ⟨-, -, hdiffs, hreplays, -⟩ :=
    executeBatch_chronicle localRuntime (InMemoryStateManager.lawful Sha256.hash) h
  refine ⟨s', trace, h, hexecuted, ?_, hreplays⟩
  rw [hdiffs, hexecuted]
  rfl

/-- Two loops that differ in their outcomes only, and `k` has included all it has seen. -/
structure BatchLoop.Sifted (l k : BatchLoop S) : Prop where
  state : k.state = l.state
  proverRoot : k.proverRoot = l.proverRoot
  executed : k.executed = l.executed
  diffs : k.diffs = l.diffs
  included : ∀ outcome ∈ k.outcomes, outcome.included = true

theorem exists_run_sifted {s : S} {txs : List Transaction} {l : BatchLoop S}
    (hr : Run (TxStep rt mgr batchId) (BatchLoop.start mgr s) txs l) :
    ∃ k, Run (TxStep rt mgr batchId) (BatchLoop.start mgr s) l.executed k ∧ l.Sifted k := by
  refine hr.history (I := fun _ m => ∃ k,
    Run (TxStep rt mgr batchId) (BatchLoop.start mgr s) m.executed k ∧ m.Sifted k) ?_ ?_
  · rintro - l tx l' ⟨k, hk, hsift⟩ hstep
    by_cases hadm : Admitted rt mgr batchId l tx
    · obtain ⟨d₁, s₁, d₂, s₂, h₁, h₂, rfl⟩ := executeTx_of_admitted hadm hstep
      rw [Admitted, ← hsift.state, ← hsift.executed] at hadm
      rw [← hsift.state] at h₁ h₂
      refine ⟨k.push rt mgr tx d₁ d₂ s₂, ?_, ?_⟩
      · exact run_append_iff.mpr ⟨k, hk, .cons (txStep_push hadm h₁ h₂) (.nil _)⟩
      · refine ⟨rfl, ?_, ?_, ?_, ?_⟩
        · simp [BatchLoop.push, hsift.proverRoot]
        · simp [BatchLoop.push, hsift.executed]
        · simp [BatchLoop.push, hsift.proverRoot, hsift.diffs]
        · intro outcome hmem
          rcases List.mem_append.mp hmem with hold | hnew
          · exact hsift.included outcome hold
          · rw [List.mem_singleton.mp hnew]
            rfl
    · obtain ⟨hs, hp, he, hd⟩ := hstep.frame hadm
      rw [he]
      exact ⟨k, hk, hsift.state.trans hs.symm, hsift.proverRoot.trans hp.symm,
        hsift.executed.trans he.symm, hsift.diffs.trans hd.symm, hsift.included⟩
  · exact ⟨BatchLoop.start mgr s, .nil _, rfl, rfl, rfl, rfl, by simp [BatchLoop.start]⟩

/-- A batch of only the transactions that were included in another includes all of them, with
the same diffs, the same final root and the same store afterwards. -/
theorem executeBatch_executedTransactions (rt : Runtime) (mgr : StateManager S) {s s' : S}
    {batchId : String} {txs : List Transaction} {trace : ExecutionTraceV1}
    (h : executeBatch rt mgr s batchId txs = (s', .ok trace)) :
    ∃ trace', executeBatch rt mgr s batchId trace.executedTransactions = (s', .ok trace') ∧
      trace'.executedTransactions = trace.executedTransactions ∧
      (∀ outcome ∈ trace'.txOutcomes, outcome.included = true) ∧
      trace'.stateDiffs = trace.stateDiffs ∧
      trace'.publicInputs.finalRoot = trace.publicInputs.finalRoot := by
  obtain ⟨l, hr, rfl, rfl⟩ := executeBatch_ok_iff.mp h
  obtain ⟨k, hk, hsift⟩ := exists_run_sifted hr
  exact ⟨buildTrace rt batchId (mgr.currentRoot s) k,
    executeBatch_ok_iff.mpr ⟨k, hk, hsift.state, rfl⟩, hsift.executed, hsift.included,
    hsift.diffs, hsift.proverRoot⟩

theorem executeBatch_executedTransactions_mixedBatch :
    ∃ s' trace trace',
      executeBatch localRuntime memory aliceStore "b1" mixedBatch = (s', .ok trace) ∧
      executeBatch localRuntime memory aliceStore "b1"
        [payment alice alice 30 0, payment alice bob 20 0] = (s', .ok trace') ∧
      trace'.stateDiffs = trace.stateDiffs ∧
      trace'.publicInputs.finalRoot = trace.publicInputs.finalRoot := by
  obtain ⟨s', trace, h, hexecuted⟩ := exists_trace_of_map localRuntime memory aliceStore "b1"
    mixedBatch ExecutionTraceV1.executedTransactions
    (b := [payment alice alice 30 0, payment alice bob 20 0]) (by decide +kernel)
  obtain ⟨trace', h', -, -, hdiffs, hroot⟩ :=
    executeBatch_executedTransactions localRuntime memory h
  rw [hexecuted] at h'
  exact ⟨s', trace, trace', h, h', hdiffs, hroot⟩

end RollupX.Executor
