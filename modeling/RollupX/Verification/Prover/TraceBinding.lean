import RollupX.Library.Commitment
import RollupX.Library.Packing
import RollupX.Verification.Prover.Guest

/-! What the two roots of an accepted trace say about its diffs. The guest hashes the diffs into
the root one after the other, so that the roots commit to the diffs. -/

namespace RollupX.Prover

open Machine Commitment
open Executor (Hash Address Account Runtime StateManager BatchLoop Transaction TxStep Admitted
  executeBatch ExecutionTraceV1 alice bob payment localRuntime memory aliceStore)
open Packing (selfDelimiting_vector selfDelimiting_u64)

variable {sha256 : List UInt8 → Hash}

def foldMessage (prevRoot : Hash) (diff : StateDiff) : List UInt8 :=
  prevRoot.toList ++ Executor.foldDiffBytes diff.account diff.oldBalance diff.newBalance
    diff.oldNonce diff.newNonce

def StateDiff.content (diff : StateDiff) : Address × UInt64 × UInt64 × UInt64 × UInt64 :=
  (diff.account, diff.oldBalance, diff.newBalance, diff.oldNonce, diff.newNonce)

def BlockTrace.foldMessages (sha256 : List UInt8 → Hash) (trace : BlockTrace) :
    List (List UInt8) :=
  chainMessages sha256 foldMessage trace.initialRoot trace.stateDiffs

def BlockTrace.rootAfter (sha256 : List UInt8 → Hash) (trace : BlockTrace) (n : ℕ) : Hash :=
  (trace.stateDiffs.take n).foldl (foldDiff sha256) trace.initialRoot

theorem foldMessage_inj (root : Hash) (diff : StateDiff) (root' : Hash) (diff' : StateDiff)
    (h : foldMessage root diff = foldMessage root' diff') :
    root = root' ∧ diff.content = diff'.content := by
  have hroot := (selfDelimiting_vector 32).comap (Prod.fst : Hash × StateDiff → Hash)
  have haccount := (selfDelimiting_vector 20).comap fun p : Hash × StateDiff => p.2.account
  have hu64 (field : StateDiff → UInt64) :=
    selfDelimiting_u64.comap fun p : Hash × StateDiff => field p.2
  have hmessage := hroot.append ((((haccount.append (hu64 StateDiff.oldBalance)).append
    (hu64 StateDiff.newBalance)).append (hu64 StateDiff.oldNonce)).append
    (hu64 StateDiff.newNonce))
  have hkey := hmessage.key_eq (x := (root, diff)) (y := (root', diff')) h
  simp only [id_eq, Prod.mk.injEq] at hkey
  obtain ⟨hroot, ⟨⟨⟨ha, hob⟩, hnb⟩, hon⟩, hnn⟩ := hkey
  exact ⟨hroot, by simp [StateDiff.content, ha, hob, hnb, hon, hnn]⟩

theorem run_diffStep {smt smt' : LightweightSMT} {diffs : List StateDiff}
    (hr : Run (DiffStep sha256) smt diffs smt') :
    smt'.root = chain sha256 foldMessage smt.root diffs := by
  induction hr with
  | nil smt => rfl
  | cons hstep _ ih =>
    obtain ⟨-, -, -, rfl⟩ := diffStep_iff.mp hstep
    exact ih

/-- A root after one or more diffs is the root the trace starts from. -/
def BlockTrace.RootRecurs (sha256 : List UInt8 → Hash) (trace : BlockTrace) : Prop :=
  ∃ n, 0 < n ∧ n ≤ trace.stateDiffs.length ∧ trace.rootAfter sha256 n = trace.initialRoot

instance (sha256 : List UInt8 → Hash) (trace : BlockTrace) :
    Decidable (trace.RootRecurs sha256) :=
  decidable_of_iff (trace.initialRoot ∈ (trace.foldMessages sha256).map sha256)
    mem_map_chainMessages_iff

/-- Two messages folded for the traces collide, or a trace comes back to its initial root. -/
def BlockTrace.Tangled (sha256 : List UInt8 → Hash) (trace trace' : BlockTrace) : Prop :=
  Collision sha256 (trace.foldMessages sha256 ++ trace'.foldMessages sha256) ∨
    trace.RootRecurs sha256 ∨ trace'.RootRecurs sha256

instance (sha256 : List UInt8 → Hash) (trace trace' : BlockTrace) :
    Decidable (trace.Tangled sha256 trace') :=
  inferInstanceAs (Decidable (_ ∨ _ ∨ _))

/-- The final root is the end of the chain that starts at the initial root. -/
def BlockTrace.Chained (sha256 : List UInt8 → Hash) (trace : BlockTrace) : Prop :=
  trace.finalRoot = chain sha256 foldMessage trace.initialRoot trace.stateDiffs

theorem Accepts.chained {trace : BlockTrace} (h : Accepts sha256 trace) :
    trace.Chained sha256 :=
  run_diffStep (accepts_iff.mp h)

theorem BlockTrace.Chained.binding {trace trace' : BlockTrace} (h : trace.Chained sha256)
    (h' : trace'.Chained sha256) (hinitial : trace.initialRoot = trace'.initialRoot)
    (hfinal : trace.finalRoot = trace'.finalRoot) :
    trace.stateDiffs.map StateDiff.content = trace'.stateDiffs.map StateDiff.content ∨
      trace.Tangled sha256 trace' := by
  have hchain : chain sha256 foldMessage trace.initialRoot trace.stateDiffs =
      chain sha256 foldMessage trace.initialRoot trace'.stateDiffs := by
    calc chain sha256 foldMessage trace.initialRoot trace.stateDiffs
        = trace.finalRoot := h.symm
      _ = trace'.finalRoot := hfinal
      _ = chain sha256 foldMessage trace'.initialRoot trace'.stateDiffs := h'
      _ = chain sha256 foldMessage trace.initialRoot trace'.stateDiffs := by rw [hinitial]
  have hbinding := chain_binding foldMessage_inj hchain
  unfold Tangled foldMessages RootRecurs rootAfter
  rw [← hinitial]
  exact hbinding

/-- Two accepted traces with the same initial and the same final root have the same diffs, up
to their witnesses, unless two messages folded for them collide or the initial root comes back
in one of them. -/
theorem trace_binding (sha256 : List UInt8 → Hash) {trace trace' : BlockTrace}
    (h : Accepts sha256 trace) (h' : Accepts sha256 trace')
    (hinitial : trace.initialRoot = trace'.initialRoot)
    (hfinal : trace.finalRoot = trace'.finalRoot) :
    trace.stateDiffs.map StateDiff.content = trace'.stateDiffs.map StateDiff.content ∨
      Collision sha256 (trace.foldMessages sha256 ++ trace'.foldMessages sha256) ∨
      trace.RootRecurs sha256 ∨ trace'.RootRecurs sha256 :=
  h.chained.binding h'.chained hinitial hfinal

/-- The trace with every witness given twice, of which the guest reads the first entry only. -/
def BlockTrace.doubled (trace : BlockTrace) : BlockTrace :=
  { trace with
    stateDiffs := trace.stateDiffs.map fun diff =>
      { diff with merkleProof := diff.merkleProof ++ diff.merkleProof } }

theorem trace_binding_doubled :
    Accepts Sha256.hash (twoDebits 90 1) ∧ Accepts Sha256.hash (twoDebits 90 1).doubled ∧
      twoDebits 90 1 ≠ (twoDebits 90 1).doubled ∧
      ((twoDebits 90 1).stateDiffs.map StateDiff.content =
          (twoDebits 90 1).doubled.stateDiffs.map StateDiff.content ∨
        Collision Sha256.hash ((twoDebits 90 1).foldMessages Sha256.hash ++
          (twoDebits 90 1).doubled.foldMessages Sha256.hash) ∨
        (twoDebits 90 1).RootRecurs Sha256.hash ∨
        (twoDebits 90 1).doubled.RootRecurs Sha256.hash) := by
  have h : Accepts Sha256.hash (twoDebits 90 1) :=
    ⟨((twoDebits 90 1).initialRoot, (twoDebits 90 1).finalRoot), by decide +kernel⟩
  have h' : Accepts Sha256.hash (twoDebits 90 1).doubled :=
    ⟨((twoDebits 90 1).initialRoot, (twoDebits 90 1).finalRoot), by decide +kernel⟩
  exact ⟨h, h', by decide +kernel, trace_binding Sha256.hash h h' rfl rfl⟩

section Execution

variable {S : Type*} {rt : Runtime} {mgr : StateManager S} {batchId : String}

theorem chained_txStep {root : Hash} {l l' : BatchLoop S} {tx : Transaction} (hm : mgr.Lawful)
    (hstep : TxStep rt mgr batchId l tx l')
    (h : l.proverRoot = chain rt.sha256 foldMessage root (l.diffs.map toRollupCoreDiff)) :
    l'.proverRoot = chain rt.sha256 foldMessage root (l'.diffs.map toRollupCoreDiff) := by
  by_cases hadm : Admitted rt mgr batchId l tx
  · obtain ⟨d₁, d₂, hd⟩ := exists_transferDiffs hm hstep hadm
    rw [hd.root, hd.diffs, h]
    simp [chain, foldMessage, foldDiff]
  · obtain ⟨-, hroot, -, hdiffs⟩ := hstep.frame hadm
    rw [hroot, hdiffs, h]

theorem chained_executeBatch (hm : mgr.Lawful) {s s' : S} {txs : List Transaction}
    {trace : ExecutionTraceV1} (h : executeBatch rt mgr s batchId txs = (s', .ok trace)) :
    (toRollupCoreTrace trace).Chained rt.sha256 := by
  obtain ⟨l, hr, -, rfl⟩ := Executor.executeBatch_ok_iff.mp h
  exact hr.invariant_of_step (I := fun l : BatchLoop S =>
    l.proverRoot = chain rt.sha256 foldMessage (mgr.currentRoot s)
      (l.diffs.map toRollupCoreDiff)) (fun _ _ _ h hstep => chained_txStep hm hstep h) rfl

/-- The roots of the trace are those of a batch that the engine executed on some store, and no
collision stands behind that. -/
def BlockTrace.RootsExecuted (sha256 : List UInt8 → Hash) (trace : BlockTrace) : Prop :=
  ∃ (S : Type) (rt : Runtime) (mgr : StateManager S) (s s' : S) (batchId : String)
    (txs : List Transaction) (executed : ExecutionTraceV1),
    rt.sha256 = sha256 ∧ mgr.Lawful ∧
      executeBatch rt mgr s batchId txs = (s', .ok executed) ∧
      trace.initialRoot = executed.publicInputs.initialRoot ∧
      trace.finalRoot = executed.publicInputs.finalRoot ∧
      ¬trace.Tangled sha256 (toRollupCoreTrace executed)

theorem write_of_content {diffs diffs' : List StateDiff}
    (h : diffs.map StateDiff.content = diffs'.map StateDiff.content) :
    diffs.map StateDiff.write = diffs'.map StateDiff.write := by
  have hwrites := congrArg (List.map fun c : Address × UInt64 × UInt64 × UInt64 × UInt64 =>
    (⟨c.1, ⟨c.2.1, c.2.2.2.1⟩, ⟨c.2.2.1, c.2.2.2.2⟩⟩ : Write Address Account)) h
  rw [List.map_map, List.map_map] at hwrites
  exact hwrites

/-- The old values of an accepted trace match if its roots are those of a batch that the
engine executed, and if no account is in two of its diffs. -/
theorem oldValuesMatch_of_accepts (sha256 : List UInt8 → Hash) (trace : BlockTrace)
    (haccepts : Accepts sha256 trace)
    (h : trace.RootsExecuted sha256 ∨ (trace.stateDiffs.map StateDiff.account).Nodup) :
    OldValuesMatch trace.stateDiffs := by
  rcases h with hexecuted | hnodup
  · obtain ⟨S, rt, mgr, s, s', batchId, txs, executed, rfl, hm, hbatch, hinitial, hfinal,
      huntangled⟩ := hexecuted
    have hcontent := (haccepts.chained.binding (chained_executeBatch hm hbatch) hinitial
      hfinal).resolve_right huntangled
    have hreplays : ReplaysFrom (mgr.getAccount s) trace.stateDiffs := by
      unfold ReplaysFrom
      rw [write_of_content hcontent]
      exact (reports_executeBatch hm hbatch).1
    exact hreplays.oldValuesMatch
  · exact oldValuesMatch_of_nodup hnodup

theorem oldValuesMatch_twoPayments :
    ∃ trace : BlockTrace, Accepts Sha256.hash trace ∧ trace.RootsExecuted Sha256.hash ∧
      trace.stateDiffs.map StateDiff.account = [alice, bob, alice, bob] ∧
      OldValuesMatch trace.stateDiffs := by
  obtain ⟨s', executed, hbatch, heval⟩ := Executor.exists_trace_of_map localRuntime memory
    aliceStore "b1" [payment alice bob 10 0, payment alice bob 20 1]
    (fun executed =>
      let trace := toRollupCoreTrace executed
      (decide (guestMain Sha256.hash trace.doubled = .ok (trace.initialRoot, trace.finalRoot)),
        decide (trace.doubled.Tangled Sha256.hash trace),
        trace.stateDiffs.map StateDiff.account))
    (b := (true, false, [alice, bob, alice, bob])) (by decide +kernel)
  simp only [Prod.mk.injEq, decide_eq_true_eq, decide_eq_false_iff_not] at heval
  obtain ⟨hguest, huntangled, haccounts⟩ := heval
  have haccepts : Accepts Sha256.hash (toRollupCoreTrace executed).doubled := ⟨_, hguest⟩
  have hexecuted : (toRollupCoreTrace executed).doubled.RootsExecuted Sha256.hash :=
    ⟨_, localRuntime, memory, aliceStore, s', "b1", _, executed, rfl,
      Executor.InMemoryStateManager.lawful Sha256.hash, hbatch, rfl, rfl, huntangled⟩
  refine ⟨(toRollupCoreTrace executed).doubled, haccepts, hexecuted, ?_,
    oldValuesMatch_of_accepts Sha256.hash _ haccepts (.inl hexecuted)⟩
  rw [← haccounts]
  simp [BlockTrace.doubled]

end Execution

end RollupX.Prover
