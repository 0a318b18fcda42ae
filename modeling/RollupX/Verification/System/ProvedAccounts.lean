import RollupX.Model.Prover.Artifacts
import RollupX.Verification.Executor.AccountTree
import RollupX.Verification.Prover.TraceBinding

/-! What a proof says about the accounts. Its first root is that of the Merkle tree over the
accounts before the batch, its second one a hash chain from there over the diffs. -/

namespace RollupX.Prover

open Executor (Account Address Admitted BatchLoop ExecutionTraceV1 RocksDbStateManager Runtime
  StateManager StoreEvent Succeeds Transaction TxStep alice applyTx applyTx_congr bob executeBatch
  executeBatch_onAccounts localRuntime maxIncluded payment)
open Executor.RocksDbStateManager Commitment Machine MerkleTree

/-- A batch of the RocksDB store, after any starts and batches, with a trace that the guest
accepts. -/
structure ProvedBatch (h : HashTree) (rt : Runtime) (s : RocksDbStateManager Database)
    (trace : ExecutionTraceV1) (t : RocksDbStateManager Database) : Prop where
  reached : ∃ events : List StoreEvent,
    events.foldlM (Executor.storeStep rt (rocksDb h)) fresh = some s
  executed : ∃ batchId txs, Executor.executeBatch rt (rocksDb h) s batchId txs = (t, .ok trace)
  accepted : Accepts rt.sha256 (toRollupCoreTrace trace)

variable {h : HashTree} {rt : Runtime} {s s' t t' : RocksDbStateManager Database}
  {trace trace' : ExecutionTraceV1}

namespace ProvedBatch

variable (hproved : ProvedBatch h rt s trace t)

include hproved

theorem mirrored : Mirrored h s := by
  obtain ⟨events, hrun⟩ := hproved.reached
  exact mirrored_of_foldlM hrun

theorem initialRoot_eq : trace.publicInputs.initialRoot = (rocksDb h).currentRoot s := by
  obtain ⟨batchId, txs, hbatch⟩ := hproved.executed
  obtain ⟨l, -, -, rfl⟩ := Executor.executeBatch_ok_iff.mp hbatch
  rfl

theorem finalRoot_eq : trace.publicInputs.finalRoot =
    chain rt.sha256 foldMessage trace.publicInputs.initialRoot
      (toRollupCoreTrace trace).stateDiffs :=
  hproved.accepted.chained

theorem getAccount_eq : Write.applyAll s.getAccount
    ((toRollupCoreTrace trace).stateDiffs.map StateDiff.write) = t.getAccount := by
  obtain ⟨batchId, txs, hbatch⟩ := hproved.executed
  exact (reports_executeBatch (lawful _ _) hbatch).2

end ProvedBatch

/-- Diffs with the same contents lead from one account at an address to one account. -/
theorem applyAll_of_content {accounts accounts' : Address → Account} {a : Address}
    {diffs diffs' : List StateDiff} (ha : accounts a = accounts' a)
    (hdiffs : diffs.map StateDiff.content = diffs'.map StateDiff.content) :
    Write.applyAll accounts (diffs.map StateDiff.write) a =
      Write.applyAll accounts' (diffs'.map StateDiff.write) a := by
  rw [write_of_content hdiffs]
  exact Write.applyAll_congr ha _

/-- Two messages that were hashed for the trees at an address or for the diffs collide, or the
first root of a trace comes back in it. -/
def RootsCollide (h : HashTree) (rt : Runtime) (s s' : RocksDbStateManager Database)
    (trace trace' : ExecutionTraceV1) (a : Address) : Prop :=
  Collision h.hashInput
      (h.keyInputs (accountTree s) (treeKey a) ++ h.keyInputs (accountTree s') (treeKey a)) ∨
    Collision rt.sha256 ((toRollupCoreTrace trace).foldMessages rt.sha256 ++
      (toRollupCoreTrace trace').foldMessages rt.sha256) ∨
    (toRollupCoreTrace trace).RootRecurs rt.sha256 ∨
    (toRollupCoreTrace trace').RootRecurs rt.sha256

/-- Proofs with the same public inputs are of batches that find and leave the same account at
every address. -/
theorem accounts_of_publicInputs (hproved : ProvedBatch h rt s trace t)
    (hproved' : ProvedBatch h rt s' trace' t')
    (hinputs : publicInputsBytes trace = publicInputsBytes trace') (a : Address) :
    (s.getAccount a = s'.getAccount a ∧ t.getAccount a = t'.getAccount a) ∨
      RootsCollide h rt s s' trace trace' a := by
  obtain ⟨hinitial, hfinal⟩ := List.append_inj hinputs (by simp)
  rw [Vector.toList_inj] at hinitial hfinal
  have hroot : (rocksDb h).currentRoot s = (rocksDb h).currentRoot s' := by
    rw [← hproved.initialRoot_eq, hinitial, hproved'.initialRoot_eq]
  rcases hproved.mirrored.binding hproved'.mirrored hroot a with ⟨hbefore, -⟩ | hcollision
  · rw [hproved.finalRoot_eq, hproved'.finalRoot_eq, ← hinitial] at hfinal
    rcases chain_binding foldMessage_inj hfinal with hdiffs | hrest
    · left
      rw [← hproved.getAccount_eq, ← hproved'.getAccount_eq]
      exact ⟨hbefore, applyAll_of_content hbefore hdiffs⟩
    · unfold RootsCollide BlockTrace.foldMessages BlockTrace.RootRecurs BlockTrace.rootAfter
      rw [show (toRollupCoreTrace trace').initialRoot = trace.publicInputs.initialRoot from
        hinitial.symm]
      exact .inr (.inr hrest)
  · exact .inr (.inl hcollision)

section Alike

variable {S : Type*} {mgr : StateManager S} {batchId batchId' : String} {tx : Transaction}
  {l l' m m' : BatchLoop S}

/-- Two loops with the same root, accounts and number of included transactions. -/
structure Alike (mgr : StateManager S) (l m : BatchLoop S) : Prop where
  root : l.proverRoot = m.proverRoot
  accounts : mgr.getAccount l.state = mgr.getAccount m.state
  count : l.executed.length = m.executed.length

theorem foldDiff_congr {root root' : Executor.Hash} {d e : StateDiff} (hroot : root = root')
    (haccount : d.account = e.account)
    (hold : (⟨d.oldBalance, d.oldNonce⟩ : Account) = ⟨e.oldBalance, e.oldNonce⟩)
    (hnew : (⟨d.newBalance, d.newNonce⟩ : Account) = ⟨e.newBalance, e.newNonce⟩) :
    foldDiff rt.sha256 root d = foldDiff rt.sha256 root' e := by
  rw [Account.mk.injEq] at hold hnew
  rw [foldDiff, foldDiff, hroot, haccount, hold.1, hold.2, hnew.1, hnew.2]

theorem Alike.step (hm : mgr.Lawful) (hmax : maxIncluded batchId = maxIncluded batchId')
    (halike : Alike mgr l m) (hstep : TxStep rt mgr batchId l tx l')
    (hstep' : TxStep rt mgr batchId' m tx m') : Alike mgr l' m' := by
  have hiff : Admitted rt mgr batchId l tx ↔ Admitted rt mgr batchId' m tx := by
    rw [Admitted, Admitted, halike.accounts, halike.count, hmax]
  by_cases hadm : Admitted rt mgr batchId l tx
  · have hadm' := hiff.mp hadm
    obtain ⟨d₁, d₂, hd⟩ := exists_transferDiffs hm hstep hadm
    obtain ⟨e₁, e₂, he⟩ := exists_transferDiffs hm hstep' hadm'
    have hfirst : foldDiff rt.sha256 l.proverRoot d₁ = foldDiff rt.sha256 m.proverRoot e₁ :=
      foldDiff_congr halike.root (hd.account₁.trans he.account₁.symm)
        (by rw [hd.old₁, he.old₁, halike.accounts]) (by rw [hd.new₁, he.new₁, halike.accounts])
    refine ⟨?_, ?_, ?_⟩
    · rw [hd.root, he.root]
      exact foldDiff_congr hfirst (hd.account₂.trans he.account₂.symm)
        (by rw [hd.old₂, he.old₂, halike.accounts]) (by rw [hd.new₂, he.new₂, halike.accounts])
    · rw [hstep.getAccount hm hadm, hstep'.getAccount hm hadm', halike.accounts]
    · rw [hstep.executed hadm, hstep'.executed hadm', List.length_append, List.length_append,
        halike.count]
  · obtain ⟨hstate, hroot, hexecuted, -⟩ := hstep.frame hadm
    obtain ⟨hstate', hroot', hexecuted', -⟩ := hstep'.frame fun hadm' => hadm (hiff.mpr hadm')
    refine ⟨?_, ?_, ?_⟩
    · rw [hroot, hroot', halike.root]
    · rw [hstate, hstate', halike.accounts]
    · rw [hexecuted, hexecuted', halike.count]

theorem Alike.run {txs : List Transaction} (hm : mgr.Lawful)
    (hmax : maxIncluded batchId = maxIncluded batchId') (halike : Alike mgr l m)
    (hr : Run (TxStep rt mgr batchId) l txs l') (hr' : Run (TxStep rt mgr batchId') m txs m') :
    Alike mgr l' m' := by
  induction hr generalizing m with
  | nil l =>
    rw [← run_nil_iff.mp hr']
    exact halike
  | cons hstep _ ih =>
    obtain ⟨k, hstep', hr'⟩ := run_cons_iff.mp hr'
    exact ih (halike.step hm hmax hstep hstep') hr'

end Alike

/-- Stores with the same root and the same accounts give the same public inputs. -/
theorem publicInputsBytes_congr {batchId batchId' : String} {txs : List Transaction}
    (hmax : maxIncluded batchId = maxIncluded batchId')
    (hroot : (rocksDb h).currentRoot s = (rocksDb h).currentRoot s')
    (haccounts : s.getAccount = s'.getAccount)
    (hbatch : executeBatch rt (rocksDb h) s batchId txs = (t, .ok trace))
    (hbatch' : executeBatch rt (rocksDb h) s' batchId' txs = (t', .ok trace')) :
    publicInputsBytes trace = publicInputsBytes trace' := by
  obtain ⟨l, hr, -, rfl⟩ := Executor.executeBatch_ok_iff.mp hbatch
  obtain ⟨l', hr', -, rfl⟩ := Executor.executeBatch_ok_iff.mp hbatch'
  have hstart : Alike (rocksDb h) (.start (rocksDb h) s) (.start (rocksDb h) s') :=
    ⟨hroot, haccounts, rfl⟩
  have hfinal := (hstart.run (lawful _ _) hmax hr hr').root
  simp only [publicInputsBytes, Executor.buildTrace, hroot, hfinal]

/-- A payment of `alice` to `bob` on a store that starts and batches have led to. -/
theorem exists_provedBatch {events : List StoreEvent}
    (hrun : events.foldlM (Executor.storeStep localRuntime (rocksDb h)) fresh = some s)
    (batchId : String) :
    ∃ t trace,
      executeBatch localRuntime (rocksDb h) s batchId [payment alice bob 5 2] = (t, .ok trace) ∧
      ProvedBatch h localRuntime s trace t := by
  obtain ⟨t, trace, hbatch, -⟩ :=
    exists_nextBatch h localRuntime hrun batchId [payment alice bob 5 2]
  refine ⟨t, trace, hbatch, ⟨events, hrun⟩, ⟨batchId, _, hbatch⟩, ?_⟩
  obtain ⟨l, hr, -, rfl⟩ := Executor.executeBatch_ok_iff.mp hbatch
  refine (accepts_buildTrace_iff (lawful _ _) hr).mpr (Along.of_forall fun tx htx l hback => ?_)
  rw [List.mem_singleton.mp htx] at hback
  exact absurd hback.2.1 (by decide)

theorem accounts_of_publicInputs_twoHistories :
    ∃ s s' t t' trace trace', ProvedBatch sha256Tree localRuntime s trace t ∧
      ProvedBatch sha256Tree localRuntime s' trace' t' ∧ trace.batchId ≠ trace'.batchId ∧
      s.getAccount alice = ⟨70, 2⟩ ∧ t.getAccount alice = ⟨65, 3⟩ ∧
      publicInputsBytes trace = publicInputsBytes trace' ∧
      ∀ a, (s.getAccount a = s'.getAccount a ∧ t.getAccount a = t'.getAccount a) ∨
        RootsCollide sha256Tree localRuntime s s' trace trace' a := by
  obtain ⟨s, s', hrun, hrun', halice, hbob, haccounts, hroot⟩ := exists_sameRoot
  obtain ⟨t, trace, hbatch, hproved⟩ := exists_provedBatch hrun "b2"
  obtain ⟨t', trace', hbatch', hproved'⟩ := exists_provedBatch hrun' "b3"
  have hinputs := publicInputsBytes_congr (by decide) hroot haccounts hbatch hbatch'
  refine ⟨s, s', t, t', trace, trace', hproved, hproved', ?_, halice, ?_, hinputs,
    accounts_of_publicInputs hproved hproved' hinputs⟩
  · obtain ⟨l, -, -, rfl⟩ := Executor.executeBatch_ok_iff.mp hbatch
    obtain ⟨l', -, -, rfl⟩ := Executor.executeBatch_ok_iff.mp hbatch'
    change "b2" ≠ "b3"
    decide
  · have hget : t.getAccount = applyTx localRuntime s.getAccount (payment alice bob 5 2) :=
      (executeBatch_onAccounts (lawful _ _) hbatch (by decide)).1
    have hcongr : applyTx localRuntime s.getAccount (payment alice bob 5 2) alice =
        applyTx localRuntime (fun a => if a = alice then ⟨70, 2⟩ else ⟨30, 0⟩)
          (payment alice bob 5 2) alice := by
      refine applyTx_congr (fun b hb => ?_) halice
      rcases List.mem_pair.mp hb with rfl | rfl
      · exact halice
      · exact hbob
    rw [hget, hcongr]
    decide +kernel

end RollupX.Prover
