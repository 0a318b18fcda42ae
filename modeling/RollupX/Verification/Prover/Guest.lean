import RollupX.Library.KeyedHistory
import RollupX.Model.Prover.RollupCore
import RollupX.Verification.Executor.Trace

/-! Which traces the guest accepts: those of the executor, and those of anyone. -/

namespace RollupX.Prover

open Machine
open Executor (Hash Address Account Runtime StateManager BatchLoop Transaction TxStep Admitted
  Succeeds executeBatch ExecutionTraceV1)

variable {sha256 : List UInt8 → Hash}

def Accepts (sha256 : List UInt8 → Hash) (trace : BlockTrace) : Prop :=
  ∃ journal, guestMain sha256 trace = .ok journal

def DiffStep (sha256 : List UInt8 → Hash) (smt : LightweightSMT) (diff : StateDiff)
    (smt' : LightweightSMT) : Prop :=
  applyDiff sha256 smt diff = .ok smt'

/-- What the guest checks of one diff, and where it leaves the root. -/
theorem diffStep_iff {smt smt' : LightweightSMT} {diff : StateDiff} :
    DiffStep sha256 smt diff smt' ↔
      diff.oldNonce ≤ diff.newNonce ∧
      (diff.oldNonce < diff.newNonce → diff.newBalance ≤ diff.oldBalance) ∧
      diff.merkleProof.head? = some smt.root ∧ smt' = ⟨foldDiff sha256 smt.root diff⟩ := by
  unfold DiffStep applyDiff
  by_cases hnonce : diff.newNonce < diff.oldNonce
  · simp [hnonce]
  · by_cases hdebit : diff.newNonce > diff.oldNonce ∧ diff.newBalance > diff.oldBalance
    · simp [hnonce, hdebit]
    · cases hproof : diff.merkleProof.head? with
      | none => simp [hnonce, hdebit]
      | some expected =>
        by_cases hroot : expected = smt.root
        · subst hroot
          simp only [hnonce, hdebit, if_false, ne_eq, not_true_eq_false, Except.ok.injEq,
            true_and, UInt64.not_lt.mp hnonce]
          constructor
          · intro h
            refine ⟨fun hlt => ?_, h.symm⟩
            exact UInt64.not_lt.mp fun hgt => hdebit ⟨hlt, hgt⟩
          · intro h
            exact h.2.symm
        · simp [hnonce, hdebit, hroot]

theorem accepts_iff {trace : BlockTrace} :
    Accepts sha256 trace ↔
      Run (DiffStep sha256) ⟨trace.initialRoot⟩ trace.stateDiffs ⟨trace.finalRoot⟩ := by
  unfold Accepts guestMain DiffStep
  rw [← foldlM_ok_iff]
  cases hfold : trace.stateDiffs.foldlM (applyDiff sha256) ⟨trace.initialRoot⟩ with
  | error e => simp
  | ok smt =>
    by_cases hroot : smt.root = trace.finalRoot
    · simp [← hroot]
    · have hne : smt ≠ ⟨trace.finalRoot⟩ := fun h => hroot (congrArg LightweightSMT.root h)
      simp [hroot, hne]

section Executor

variable {S : Type*} {rt : Runtime} {mgr : StateManager S} {batchId : String}

/-- The loop is about to include a self-transfer that turns back its sender's nonce. -/
def TurnsBackNonce (rt : Runtime) (mgr : StateManager S) (batchId : String)
    (l : BatchLoop S) (tx : Transaction) : Prop :=
  Admitted rt mgr batchId l tx ∧ tx.sender = tx.receiver ∧
    (mgr.getAccount l.state tx.sender).nonce.toNat < 2 ^ 64 - 1

/-- The two diffs of an included transaction, as the guest sees them. -/
structure TransferDiffs (rt : Runtime) (mgr : StateManager S) (l : BatchLoop S)
    (tx : Transaction) (l' : BatchLoop S) (d₁ d₂ : StateDiff) : Prop where
  diffs : l'.diffs.map toRollupCoreDiff = l.diffs.map toRollupCoreDiff ++ [d₁, d₂]
  proof₁ : d₁.merkleProof.head? = some l.proverRoot
  proof₂ : d₂.merkleProof.head? = some (foldDiff rt.sha256 l.proverRoot d₁)
  root : l'.proverRoot = foldDiff rt.sha256 (foldDiff rt.sha256 l.proverRoot d₁) d₂
  old₁ : (⟨d₁.oldBalance, d₁.oldNonce⟩ : Account) = mgr.getAccount l.state tx.sender
  new₁ : (⟨d₁.newBalance, d₁.newNonce⟩ : Account) =
    Executor.debited tx (mgr.getAccount l.state tx.sender)
  old₂ : (⟨d₂.oldBalance, d₂.oldNonce⟩ : Account) =
    Function.update (mgr.getAccount l.state) tx.sender
      (Executor.debited tx (mgr.getAccount l.state tx.sender)) tx.receiver
  new₂ : (⟨d₂.newBalance, d₂.newNonce⟩ : Account) =
    Executor.credited tx (mgr.getAccount l.state tx.receiver)
  account₁ : d₁.account = tx.sender
  account₂ : d₂.account = tx.receiver

theorem exists_transferDiffs {l l' : BatchLoop S} {tx : Transaction} (hm : mgr.Lawful)
    (hstep : TxStep rt mgr batchId l tx l') (h : Admitted rt mgr batchId l tx) :
    ∃ d₁ d₂, TransferDiffs rt mgr l tx l' d₁ d₂ := by
  obtain ⟨d₁, s₁, d₂, s₂, h₁, h₂, rfl⟩ := Executor.executeTx_of_admitted h hstep
  obtain ⟨ha₁, hob₁, hnb₁, hon₁, hnn₁⟩ := hm.diff_setAccount h₁
  obtain ⟨ha₂, hob₂, hnb₂, hon₂, hnn₂⟩ := hm.diff_setAccount h₂
  rw [hm.getAccount_setAccount h₁] at hob₂ hon₂
  let e₁ := Executor.withRoot d₁ l.proverRoot
  let e₂ := Executor.withRoot d₂ (Executor.foldDiff rt.sha256 l.proverRoot e₁)
  refine ⟨toRollupCoreDiff e₁, toRollupCoreDiff e₂, ?_⟩
  exact
    { diffs := by simp [Executor.BatchLoop.push, e₁, e₂]
      proof₁ := rfl
      proof₂ := rfl
      root := rfl
      old₁ := by simp [toRollupCoreDiff, e₁, Executor.withRoot, hob₁, hon₁]
      new₁ := by simp [toRollupCoreDiff, e₁, Executor.withRoot, hnb₁, hnn₁]
      old₂ := by simp [toRollupCoreDiff, e₂, Executor.withRoot, hob₂, hon₂]
      new₂ := by simp [toRollupCoreDiff, e₂, Executor.withRoot, hnb₂, hnn₂]
      account₁ := ha₁
      account₂ := ha₂ }

/-- The guest accepts the sender's diff: its nonce does not fall and its balance does not
grow. -/
theorem TransferDiffs.first {l l' : BatchLoop S} {tx : Transaction} {d₁ d₂ : StateDiff}
    (hd : TransferDiffs rt mgr l tx l' d₁ d₂) (h : Admitted rt mgr batchId l tx) :
    DiffStep rt.sha256 ⟨l.proverRoot⟩ d₁ ⟨foldDiff rt.sha256 l.proverRoot d₁⟩ := by
  have hon : d₁.oldNonce = (mgr.getAccount l.state tx.sender).nonce :=
    congrArg Account.nonce hd.old₁
  have hob : d₁.oldBalance = (mgr.getAccount l.state tx.sender).balance :=
    congrArg Account.balance hd.old₁
  have hnn : d₁.newNonce = Bytes.saturatingAdd (mgr.getAccount l.state tx.sender).nonce 1 :=
    congrArg Account.nonce hd.new₁
  have hnb : d₁.newBalance = (mgr.getAccount l.state tx.sender).balance - tx.amount :=
    congrArg Account.balance hd.new₁
  refine diffStep_iff.mpr ⟨?_, fun _ => ?_, hd.proof₁, rfl⟩
  · have hsat := Bytes.toNat_saturatingAdd (mgr.getAccount l.state tx.sender).nonce 1
    have hlt := (mgr.getAccount l.state tx.sender).nonce.toNat_lt
    rw [hon, hnn, UInt64.le_iff_toNat_le, hsat]
    omega
  · have hsub := UInt64.toNat_sub_of_le _ _ h.amount_le
    rw [hnb, hob, UInt64.le_iff_toNat_le, hsub]
    omega

/-- The nonce in the receiver's diff is unchanged, unless the receiver is the sender and its
nonce has just been raised. -/
theorem TransferDiffs.second {l l' : BatchLoop S} {tx : Transaction} {d₁ d₂ : StateDiff}
    (hd : TransferDiffs rt mgr l tx l' d₁ d₂) :
    if tx.sender = tx.receiver ∧
        (mgr.getAccount l.state tx.sender).nonce.toNat < 2 ^ 64 - 1 then
      d₂.newNonce < d₂.oldNonce
    else d₂.newNonce = d₂.oldNonce := by
  have hnew : d₂.newNonce = (mgr.getAccount l.state tx.receiver).nonce :=
    congrArg Account.nonce hd.new₂
  have hold := congrArg Account.nonce hd.old₂
  by_cases hself : tx.sender = tx.receiver
  · have hraised : d₂.oldNonce =
        Bytes.saturatingAdd (mgr.getAccount l.state tx.receiver).nonce 1 := by
      rw [hself, Function.update_self] at hold
      exact hold
    have hsat := Bytes.toNat_saturatingAdd (mgr.getAccount l.state tx.receiver).nonce 1
    have hmax := (mgr.getAccount l.state tx.receiver).nonce.toNat_lt
    have hone : (1 : UInt64).toNat = 1 := rfl
    rw [hself, hnew, hraised]
    by_cases hlt : (mgr.getAccount l.state tx.receiver).nonce.toNat < 2 ^ 64 - 1
    · rw [if_pos ⟨rfl, hlt⟩, UInt64.lt_iff_toNat_lt, hsat]
      omega
    · rw [if_neg fun h => hlt h.2]
      apply UInt64.toNat_inj.mp
      rw [hsat]
      omega
  · rw [if_neg fun h => hself h.1, hnew]
    rw [Function.update_of_ne (fun h => hself h.symm)] at hold
    exact hold.symm

/-- One iteration appends diffs that carry the guest from root to root, or, for a
self-transfer that turns back its nonce, diffs that the guest rejects. -/
theorem exists_diffs_txStep {l l' : BatchLoop S} {tx : Transaction} (hm : mgr.Lawful)
    (hstep : TxStep rt mgr batchId l tx l') :
    ∃ ds, l'.diffs.map toRollupCoreDiff = l.diffs.map toRollupCoreDiff ++ ds ∧
      (¬TurnsBackNonce rt mgr batchId l tx →
        Run (DiffStep rt.sha256) ⟨l.proverRoot⟩ ds ⟨l'.proverRoot⟩) ∧
      (TurnsBackNonce rt mgr batchId l tx →
        ∀ smt, ¬Run (DiffStep rt.sha256) ⟨l.proverRoot⟩ ds smt) := by
  by_cases hadm : Admitted rt mgr batchId l tx
  · obtain ⟨d₁, d₂, hd⟩ := exists_transferDiffs hm hstep hadm
    have hsecond := hd.second
    refine ⟨[d₁, d₂], hd.diffs, fun hback => ?_, fun hback smt hr => ?_⟩
    · rw [if_neg fun h => hback ⟨hadm, h⟩] at hsecond
      refine .cons (hd.first hadm) (.cons (diffStep_iff.mpr ?_) (.nil _))
      rw [hd.root, hsecond]
      exact ⟨UInt64.le_refl _, fun h => absurd h (UInt64.lt_irrefl _), hd.proof₂, rfl⟩
    · rw [if_pos hback.2] at hsecond
      obtain ⟨smt₁, -, hr₁⟩ := run_cons_iff.mp hr
      obtain ⟨smt₂, hstep₂, -⟩ := run_cons_iff.mp hr₁
      exact UInt64.not_lt.mpr (diffStep_iff.mp hstep₂).1 hsecond
  · obtain ⟨-, hp, -, hds⟩ := hstep.frame hadm
    refine ⟨[], by rw [hds, List.append_nil], fun _ => ?_, fun hback => absurd hback.1 hadm⟩
    rw [hp]
    exact .nil _

theorem exists_diffs_run {l l' : BatchLoop S} {txs : List Transaction} (hm : mgr.Lawful)
    (hr : Run (TxStep rt mgr batchId) l txs l') :
    ∃ ds, l'.diffs.map toRollupCoreDiff = l.diffs.map toRollupCoreDiff ++ ds ∧
      (Along (TxStep rt mgr batchId) (fun l tx => ¬TurnsBackNonce rt mgr batchId l tx) l txs →
        Run (DiffStep rt.sha256) ⟨l.proverRoot⟩ ds ⟨l'.proverRoot⟩) ∧
      ((∃ smt, Run (DiffStep rt.sha256) ⟨l.proverRoot⟩ ds smt) →
        Along (TxStep rt mgr batchId) (fun l tx => ¬TurnsBackNonce rt mgr batchId l tx)
          l txs) := by
  induction hr with
  | nil l => exact ⟨[], by simp, fun _ => .nil _, fun _ => trivial⟩
  | @cons l tx k txs l' hstep hrest ih =>
    obtain ⟨ds, hds, hgood, hbad⟩ := exists_diffs_txStep hm hstep
    obtain ⟨es, hes, hrun, halong⟩ := ih
    refine ⟨ds ++ es, by rw [hes, hds, List.append_assoc], fun h => ?_, fun h => ?_⟩
    · exact run_append_iff.mpr ⟨_, hgood h.1, hrun (h.2 k hstep)⟩
    · obtain ⟨smt, hsmt⟩ := h
      obtain ⟨mid, hfirst, hlast⟩ := run_append_iff.mp hsmt
      have hback : ¬TurnsBackNonce rt mgr batchId l tx := fun hb => hbad hb mid hfirst
      have hmid : mid = ⟨k.proverRoot⟩ :=
        Run.unique (fun _ _ _ _ h₁ h₂ => Except.ok.inj (h₁.symm.trans h₂)) hfirst
          (hgood hback)
      rw [hmid] at hlast
      refine ⟨hback, fun t ht => ?_⟩
      rw [ht.unique hstep]
      exact halong ⟨smt, hlast⟩

theorem accepts_buildTrace_iff (hm : mgr.Lawful) {s : S} {txs : List Transaction}
    {l : BatchLoop S} (hr : Run (TxStep rt mgr batchId) (BatchLoop.start mgr s) txs l) :
    Accepts rt.sha256 (toRollupCoreTrace (Executor.buildTrace rt batchId (mgr.currentRoot s) l)) ↔
      Along (TxStep rt mgr batchId) (fun l tx => ¬TurnsBackNonce rt mgr batchId l tx)
        (BatchLoop.start mgr s) txs := by
  obtain ⟨ds, hds, hgood, hback⟩ := exists_diffs_run hm hr
  rw [accepts_iff]
  change Run (DiffStep rt.sha256) ⟨mgr.currentRoot s⟩ (l.diffs.map toRollupCoreDiff)
    ⟨l.proverRoot⟩ ↔ _
  rw [hds]
  constructor
  · intro h
    exact hback ⟨_, h⟩
  · intro h
    exact hgood h

/-- The guest accepts the converted trace of a batch exactly when the batch includes no
self-transfer of a sender whose nonce is below `u64::MAX`. -/
theorem accepts_executeBatch_iff (rt : Runtime) (hm : mgr.Lawful) (s : S) (batchId : String)
    (txs : List Transaction) (trace : ExecutionTraceV1)
    (hok : (executeBatch rt mgr s batchId txs).2 = .ok trace) :
    Accepts rt.sha256 (toRollupCoreTrace trace) ↔
      Along (TxStep rt mgr batchId) (fun l tx => ¬TurnsBackNonce rt mgr batchId l tx)
        (BatchLoop.start mgr s) txs := by
  obtain ⟨l, hr, -, rfl⟩ := Executor.executeBatch_ok_iff.mp
    (Prod.ext rfl hok : executeBatch rt mgr s batchId txs = (_, .ok trace))
  exact accepts_buildTrace_iff hm hr

theorem accepts_payment :
    ∃ trace, (executeBatch Executor.localRuntime
        (Executor.InMemoryStateManager.stateManager Sha256.hash) Executor.aliceStore "b1"
        [Executor.payment Executor.alice Executor.bob 10 0]).2 = .ok trace ∧
      Accepts Sha256.hash (toRollupCoreTrace trace) := by
  obtain ⟨trace, hok⟩ := Executor.InMemoryStateManager.succeeds Executor.localRuntime
    Sha256.hash Executor.aliceStore "b1"
    [Executor.payment Executor.alice Executor.bob 10 0]
  refine ⟨trace, hok, (accepts_executeBatch_iff Executor.localRuntime
    (Executor.InMemoryStateManager.lawful Sha256.hash) Executor.aliceStore "b1" _ trace
    hok).mpr ?_⟩
  apply Along.of_forall
  intro tx htx l hback
  rw [List.mem_singleton.mp htx] at hback
  exact absurd hback.2.1 (by decide)

/-- The executor includes a self-transfer, and the guest stops at the diff that turns back
the nonce. -/
theorem not_accepts_selfTransfer :
    ∃ trace, (executeBatch Executor.localRuntime
        (Executor.InMemoryStateManager.stateManager Sha256.hash) Executor.aliceStore "b1"
        [Executor.payment Executor.alice Executor.alice 10 0]).2 = .ok trace ∧
      guestMain Sha256.hash (toRollupCoreTrace trace) =
        .error (.invalidStateTransition .invalidOldNonce) := by
  obtain ⟨trace, hok⟩ := Executor.InMemoryStateManager.succeeds Executor.localRuntime
    Sha256.hash Executor.aliceStore "b1"
    [Executor.payment Executor.alice Executor.alice 10 0]
  have hmap := congrArg
    (Except.map fun t => guestMain Sha256.hash (toRollupCoreTrace t)) hok
  exact ⟨trace, hok, Except.ok.inj (hmap.symm.trans (by decide +kernel))⟩

end Executor

def StateDiff.write (d : StateDiff) : Write Address Account :=
  ⟨d.account, ⟨d.oldBalance, d.oldNonce⟩, ⟨d.newBalance, d.newNonce⟩⟩

/-- Whenever two diffs concern one account and none between them does, the later starts
from the balance and nonce that the earlier ends with. -/
def OldValuesMatch (diffs : List StateDiff) : Prop :=
  ∀ before d between d' later, diffs = before ++ d :: (between ++ d' :: later) →
    d'.account = d.account → (∀ m ∈ between, m.account ≠ d.account) →
      d'.oldBalance = d.newBalance ∧ d'.oldNonce = d.newNonce

/-- The diffs are what successive writes to the accounts report. -/
def ReplaysFrom (accounts : Address → Account) (diffs : List StateDiff) : Prop :=
  Write.Replays accounts (diffs.map StateDiff.write)

theorem ReplaysFrom.oldValuesMatch {accounts : Address → Account} {diffs : List StateDiff}
    (h : ReplaysFrom accounts diffs) : OldValuesMatch diffs := by
  intro before d between d' later hdiffs hkey hbetween
  have hold := Write.Replays.linked h (before.map StateDiff.write) d.write
    (between.map StateDiff.write) d'.write (later.map StateDiff.write) (by simp [hdiffs]) hkey (by
      intro m hm
      obtain ⟨e, he, rfl⟩ := List.mem_map.mp hm
      exact hbetween e he)
  exact ⟨congrArg Account.balance hold, congrArg Account.nonce hold⟩

theorem oldValuesMatch_of_nodup {diffs : List StateDiff}
    (h : (diffs.map StateDiff.account).Nodup) : OldValuesMatch diffs := by
  intro before d between d' later hdiffs hkey _
  rw [hdiffs] at h
  simp [List.nodup_append, hkey] at h

/-- A trace of two withdrawals of 10 by `alice`, the second from `balance` at `nonce`. -/
def twoDebits (balance nonce : UInt64) : BlockTrace :=
  let r₀ : Hash := Vector.replicate 32 0
  let d₁ : StateDiff := ⟨Executor.alice, 100, 90, 0, 1, [r₀]⟩
  let r₁ := foldDiff Sha256.hash r₀ d₁
  let d₂ : StateDiff := ⟨Executor.alice, balance, balance - 10, nonce, nonce + 1, [r₁]⟩
  ⟨"b1", r₀, foldDiff Sha256.hash r₁ d₂, [d₁, d₂]⟩

/-- The guest accepts a second withdrawal that starts from an invented account. -/
theorem not_oldValuesMatch_twoDebits :
    Accepts Sha256.hash (twoDebits 500 7) ∧
      ¬OldValuesMatch (twoDebits 500 7).stateDiffs := by
  refine ⟨⟨((twoDebits 500 7).initialRoot, (twoDebits 500 7).finalRoot), by decide +kernel⟩, ?_⟩
  intro h
  have hold := h [] _ [] _ [] rfl rfl (by simp)
  exact absurd hold.1 (by decide)

section Histories

variable {S : Type*} {rt : Runtime} {mgr : StateManager S} {batchId : String}

/-- The diffs so far replay from `accounts` and lead to the store. -/
def Reports (mgr : StateManager S) (accounts : Address → Account) (l : BatchLoop S) : Prop :=
  ReplaysFrom accounts (l.diffs.map toRollupCoreDiff) ∧
    Write.applyAll accounts ((l.diffs.map toRollupCoreDiff).map StateDiff.write) =
      mgr.getAccount l.state

/-- The guest's form of a diff writes what the diff does. -/
theorem reports_of_chronicle {s : S} {done : List Transaction} {l : BatchLoop S}
    (h : Executor.Chronicle rt mgr s done l) : Reports mgr (mgr.getAccount s) l := by
  unfold Reports ReplaysFrom
  rw [List.map_map]
  exact ⟨h.replays, h.accounts⟩

/-- The diffs of every batch are the writes that lead from the accounts before it to those
after it, also when it includes self-transfers. -/
theorem reports_executeBatch (hm : mgr.Lawful) {s s' : S} {txs : List Transaction}
    {trace : ExecutionTraceV1} (h : executeBatch rt mgr s batchId txs = (s', .ok trace)) :
    ReplaysFrom (mgr.getAccount s) (toRollupCoreTrace trace).stateDiffs ∧
      Write.applyAll (mgr.getAccount s)
        ((toRollupCoreTrace trace).stateDiffs.map StateDiff.write) = mgr.getAccount s' := by
  obtain ⟨l, hr, rfl, rfl⟩ := Executor.executeBatch_ok_iff.mp h
  exact reports_of_chronicle (Executor.chronicle_run hm hr)

end Histories

end RollupX.Prover
