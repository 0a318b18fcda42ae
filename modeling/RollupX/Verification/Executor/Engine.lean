import RollupX.Library.Keccak
import RollupX.Library.Run
import RollupX.Library.Sha256
import RollupX.Model.Executor.TxEngine
import RollupX.Verification.Executor.State

/-! What one iteration of the engine's loop can do, and batches as runs of it. -/

namespace RollupX.Executor

open Machine

variable {S : Type*} {rt : Runtime} {mgr : StateManager S} {batchId : String}

/-- The loop includes the transaction: it passes every check and the batch has room. -/
def Admitted (rt : Runtime) (mgr : StateManager S) (batchId : String) (l : BatchLoop S)
    (tx : Transaction) : Prop :=
  rejection rt (mgr.getAccount l.state tx.sender) tx = none ∧
    l.executed.length < maxIncluded batchId

instance (l : BatchLoop S) (tx : Transaction) : Decidable (Admitted rt mgr batchId l tx) :=
  inferInstanceAs (Decidable (_ ∧ _))

def TxStep (rt : Runtime) (mgr : StateManager S) (batchId : String) (l : BatchLoop S)
    (tx : Transaction) (l' : BatchLoop S) : Prop :=
  executeTx rt mgr batchId l tx = .ok l'

theorem rejection_eq_none_iff (sender : Account) (tx : Transaction) :
    rejection rt sender tx = none ↔
      verifySignature rt tx = true ∧ sender.nonce = tx.nonce ∧ tx.amount ≤ sender.balance := by
  unfold rejection
  cases hsig : verifySignature rt tx with
  | false => simp
  | true =>
    by_cases hnonce : sender.nonce = tx.nonce
    · by_cases hbal : sender.balance < tx.amount
      · simp [hnonce, hbal]
      · simp [hnonce, hbal, UInt64.not_lt.mp hbal]
    · simp [hnonce]

theorem Admitted.nonce_eq {l : BatchLoop S} {tx : Transaction}
    (h : Admitted rt mgr batchId l tx) : (mgr.getAccount l.state tx.sender).nonce = tx.nonce :=
  ((rejection_eq_none_iff _ _).mp h.1).2.1

theorem Admitted.amount_le {l : BatchLoop S} {tx : Transaction}
    (h : Admitted rt mgr batchId l tx) :
    tx.amount ≤ (mgr.getAccount l.state tx.sender).balance :=
  ((rejection_eq_none_iff _ _).mp h.1).2.2

def BatchLoop.push (rt : Runtime) (mgr : StateManager S) (l : BatchLoop S) (tx : Transaction)
    (senderDiff receiverDiff : StateDiff) (s : S) : BatchLoop S :=
  let sender := mgr.getAccount l.state tx.sender
  let receiver := mgr.getAccount l.state tx.receiver
  let senderDiff := withRoot senderDiff l.proverRoot
  let root := foldDiff rt.sha256 l.proverRoot senderDiff
  let receiverDiff := withRoot receiverDiff root
  { state := s
    proverRoot := foldDiff rt.sha256 root receiverDiff
    executed := l.executed ++ [tx]
    diffs := l.diffs ++ [senderDiff, receiverDiff]
    outcomes := l.outcomes ++
      [includedOutcome rt tx sender (debited tx sender) receiver (credited tx receiver)] }

section Using

variable {E : Type*} {sender receiver : Account} {l : BatchLoop S} {tx : Transaction}
  {setSender setReceiver : S → Address → Account → Except E (StateDiff × S)}

theorem executeTxUsing_of_not
    (h : ¬(rejection rt sender tx = none ∧ l.executed.length < maxIncluded batchId)) :
    ∃ why, executeTxUsing rt batchId sender receiver setSender setReceiver l tx =
      .ok { l with outcomes := l.outcomes ++ [rejectedOutcome rt tx sender receiver why] } := by
  unfold executeTxUsing
  cases hrej : rejection rt sender tx with
  | some why => exact ⟨why, rfl⟩
  | none =>
    have hfull : maxIncluded batchId ≤ l.executed.length := by
      by_contra hroom
      exact h ⟨hrej, Nat.lt_of_not_le hroom⟩
    exact ⟨.batchFull, by simp [hfull]⟩

theorem executeTxUsing_of_error (hrej : rejection rt sender tx = none)
    (hroom : l.executed.length < maxIncluded batchId) {e : E}
    (hset : setSender l.state tx.sender (debited tx sender) = .error e) :
    executeTxUsing rt batchId sender receiver setSender setReceiver l tx = .error e := by
  simp [executeTxUsing, hrej, Nat.not_le.mpr hroom, hset]

theorem executeTxUsing_of_ok_error (hrej : rejection rt sender tx = none)
    (hroom : l.executed.length < maxIncluded batchId) {d : StateDiff} {s : S} {e : E}
    (h₁ : setSender l.state tx.sender (debited tx sender) = .ok (d, s))
    (h₂ : setReceiver s tx.receiver (credited tx receiver) = .error e) :
    executeTxUsing rt batchId sender receiver setSender setReceiver l tx = .error e := by
  simp [executeTxUsing, hrej, Nat.not_le.mpr hroom, h₁, h₂]

theorem executeTxUsing_of_ok (hrej : rejection rt sender tx = none)
    (hroom : l.executed.length < maxIncluded batchId) {d₁ d₂ : StateDiff} {s₁ s₂ : S}
    (h₁ : setSender l.state tx.sender (debited tx sender) = .ok (d₁, s₁))
    (h₂ : setReceiver s₁ tx.receiver (credited tx receiver) = .ok (d₂, s₂)) :
    ∃ l', executeTxUsing rt batchId sender receiver setSender setReceiver l tx = .ok l' ∧
      l'.state = s₂ ∧ l'.executed = l.executed ++ [tx] := by
  simp [executeTxUsing, hrej, Nat.not_le.mpr hroom, h₁, h₂]

end Using

theorem executeTx_of_not_admitted {l : BatchLoop S} {tx : Transaction}
    (h : ¬Admitted rt mgr batchId l tx) :
    ∃ why, executeTx rt mgr batchId l tx =
      .ok { l with
        outcomes := l.outcomes ++ [rejectedOutcome rt tx (mgr.getAccount l.state tx.sender)
          (mgr.getAccount l.state tx.receiver) why] } :=
  executeTxUsing_of_not h

theorem executeTx_of_admitted {l l' : BatchLoop S} {tx : Transaction}
    (h : Admitted rt mgr batchId l tx) (hstep : TxStep rt mgr batchId l tx l') :
    ∃ d₁ s₁ d₂ s₂,
      mgr.setAccount l.state tx.sender (debited tx (mgr.getAccount l.state tx.sender)) =
        .ok (d₁, s₁) ∧
      mgr.setAccount s₁ tx.receiver (credited tx (mgr.getAccount l.state tx.receiver)) =
        .ok (d₂, s₂) ∧
      l' = l.push rt mgr tx d₁ d₂ s₂ := by
  obtain ⟨hrej, hroom⟩ := h
  unfold TxStep executeTx executeTxUsing at hstep
  simp only [hrej, Nat.not_le.mpr hroom, if_false] at hstep
  cases h₁ : mgr.setAccount l.state tx.sender
      (debited tx (mgr.getAccount l.state tx.sender)) with
  | error e => simp [h₁] at hstep
  | ok pair =>
    obtain ⟨d₁, s₁⟩ := pair
    simp only [h₁] at hstep
    cases h₂ : mgr.setAccount s₁ tx.receiver
        (credited tx (mgr.getAccount l.state tx.receiver)) with
    | error e => simp [h₂] at hstep
    | ok pair =>
      obtain ⟨d₂, s₂⟩ := pair
      simp only [h₂] at hstep
      exact ⟨d₁, s₁, d₂, s₂, rfl, h₂, (Except.ok.inj hstep).symm⟩

theorem txStep_push {l : BatchLoop S} {tx : Transaction} {d₁ d₂ : StateDiff} {s₁ s₂ : S}
    (h : Admitted rt mgr batchId l tx)
    (h₁ : mgr.setAccount l.state tx.sender (debited tx (mgr.getAccount l.state tx.sender)) =
      .ok (d₁, s₁))
    (h₂ : mgr.setAccount s₁ tx.receiver (credited tx (mgr.getAccount l.state tx.receiver)) =
      .ok (d₂, s₂)) :
    TxStep rt mgr batchId l tx (l.push rt mgr tx d₁ d₂ s₂) := by
  obtain ⟨hrej, hroom⟩ := h
  simp [TxStep, executeTx, executeTxUsing, hrej, Nat.not_le.mpr hroom, h₁, h₂, BatchLoop.push]

theorem TxStep.frame {l l' : BatchLoop S} {tx : Transaction}
    (hstep : TxStep rt mgr batchId l tx l') (h : ¬Admitted rt mgr batchId l tx) :
    l'.state = l.state ∧ l'.proverRoot = l.proverRoot ∧ l'.executed = l.executed ∧
      l'.diffs = l.diffs := by
  obtain ⟨why, he⟩ := executeTx_of_not_admitted h
  rw [TxStep, he] at hstep
  rw [← Except.ok.inj hstep]
  exact ⟨rfl, rfl, rfl, rfl⟩

theorem TxStep.getAccount {l l' : BatchLoop S} {tx : Transaction} (hm : mgr.Lawful)
    (hstep : TxStep rt mgr batchId l tx l') (h : Admitted rt mgr batchId l tx) :
    mgr.getAccount l'.state =
      Function.update
        (Function.update (mgr.getAccount l.state) tx.sender
          (debited tx (mgr.getAccount l.state tx.sender)))
        tx.receiver (credited tx (mgr.getAccount l.state tx.receiver)) := by
  obtain ⟨d₁, s₁, d₂, s₂, h₁, h₂, rfl⟩ := executeTx_of_admitted h hstep
  change mgr.getAccount s₂ = _
  rw [hm.getAccount_setAccount h₂, hm.getAccount_setAccount h₁]

theorem TxStep.executed {l l' : BatchLoop S} {tx : Transaction}
    (hstep : TxStep rt mgr batchId l tx l') (h : Admitted rt mgr batchId l tx) :
    l'.executed = l.executed ++ [tx] := by
  obtain ⟨d₁, s₁, d₂, s₂, h₁, h₂, rfl⟩ := executeTx_of_admitted h hstep
  rfl

theorem TxStep.executed_ne_nil {l l' : BatchLoop S} {tx : Transaction}
    (hstep : TxStep rt mgr batchId l tx l') (h : l.executed ≠ []) : l'.executed ≠ [] := by
  by_cases hadm : Admitted rt mgr batchId l tx
  · simp [hstep.executed hadm]
  · obtain ⟨-, -, he, -⟩ := hstep.frame hadm
    rw [he]
    exact h

theorem maxIncluded_pos (batchId : String) : 0 < maxIncluded batchId := by
  unfold maxIncluded
  split_ifs <;> decide

theorem TxStep.eq_of_map {β : Type*} {l l' : BatchLoop S} {tx : Transaction} {f : BatchLoop S → β}
    {b : β} (hstep : TxStep rt mgr batchId l tx l')
    (h : (executeTx rt mgr batchId l tx).toOption.map f = some b) : f l' = b := by
  rw [hstep] at h
  exact Option.some.inj h

theorem TxStep.unique {l l₁ l₂ : BatchLoop S} {tx : Transaction}
    (h₁ : TxStep rt mgr batchId l tx l₁) (h₂ : TxStep rt mgr batchId l tx l₂) : l₁ = l₂ :=
  Except.ok.inj (h₁.symm.trans h₂)

def AllRejected (rt : Runtime) (accounts : Address → Account)
    (call : String × List Transaction) : Prop :=
  ∀ tx ∈ call.2, rejection rt (accounts tx.sender) tx ≠ none

/-- A batch includes nothing exactly when the checks reject each of its transactions
against the accounts it starts from. -/
theorem executed_eq_nil_iff {l l' : BatchLoop S} {txs : List Transaction}
    (hr : Run (TxStep rt mgr batchId) l txs l') (hl : l.executed = []) :
    l'.executed = [] ↔
      ∀ tx ∈ txs, rejection rt (mgr.getAccount l.state tx.sender) tx ≠ none := by
  induction hr with
  | nil l => simp [hl]
  | @cons l tx k txs l' hstep hrest ih =>
    by_cases hadm : Admitted rt mgr batchId l tx
    · have hk : k.executed ≠ [] := by simp [hstep.executed hadm]
      have hl' : l'.executed ≠ [] :=
        hrest.invariant_of_step (I := fun m => m.executed ≠ [])
          (fun m _ m' hm hs => hs.executed_ne_nil hm) hk
      simp [hl', hadm.1]
    · obtain ⟨hs, -, he, -⟩ := hstep.frame hadm
      have hrej : rejection rt (mgr.getAccount l.state tx.sender) tx ≠ none := by
        intro hnone
        apply hadm
        refine ⟨hnone, ?_⟩
        rw [hl]
        exact maxIncluded_pos batchId
      rw [ih (he.trans hl), hs]
      simp [hrej]

theorem frame_of_executed_nil {l l' : BatchLoop S} {txs : List Transaction}
    (hr : Run (TxStep rt mgr batchId) l txs l') (h : l'.executed = []) :
    l'.state = l.state ∧ l'.proverRoot = l.proverRoot := by
  induction hr with
  | nil l => exact ⟨rfl, rfl⟩
  | @cons l tx k txs l' hstep hrest ih =>
    have hadm : ¬Admitted rt mgr batchId l tx := by
      intro hadm
      have hk : k.executed ≠ [] := by simp [hstep.executed hadm]
      exact hrest.invariant_of_step (I := fun m => m.executed ≠ [])
        (fun m _ m' hm hs => hs.executed_ne_nil hm) hk h
    obtain ⟨hs, hp, -, -⟩ := hstep.frame hadm
    obtain ⟨hs', hp'⟩ := ih h
    exact ⟨hs'.trans hs, hp'.trans hp⟩

theorem executeBatch_ok_iff {s s' : S} {txs : List Transaction} {trace : ExecutionTraceV1} :
    executeBatch rt mgr s batchId txs = (s', .ok trace) ↔
      ∃ l, Run (TxStep rt mgr batchId) (BatchLoop.start mgr s) txs l ∧ l.state = s' ∧
        buildTrace rt batchId (mgr.currentRoot s) l = trace := by
  unfold executeBatch TxStep
  cases hf : txs.foldlM (executeTx rt mgr batchId) (BatchLoop.start mgr s) with
  | error e =>
    simp only [Prod.mk.injEq, reduceCtorEq, and_false, false_iff, not_exists]
    rintro l ⟨hr, -⟩
    rw [← foldlM_ok_iff, hf] at hr
    cases hr
  | ok l =>
    simp only [Prod.mk.injEq, Except.ok.injEq]
    constructor
    · rintro ⟨rfl, rfl⟩
      exact ⟨l, (foldlM_ok_iff _ _ _ _).mp hf, rfl, rfl⟩
    · rintro ⟨l', hr, hs, ht⟩
      rw [← foldlM_ok_iff, hf] at hr
      cases hr
      exact ⟨hs, ht⟩

def Succeeds (rt : Runtime) (mgr : StateManager S) (s : S) (batchId : String)
    (txs : List Transaction) : Prop :=
  ∃ trace, (executeBatch rt mgr s batchId txs).2 = .ok trace

theorem Succeeds.exists_trace {s : S} {txs : List Transaction}
    (h : Succeeds rt mgr s batchId txs) :
    ∃ s' trace, executeBatch rt mgr s batchId txs = (s', .ok trace) := by
  obtain ⟨trace, htrace⟩ := h
  exact ⟨_, trace, Prod.ext rfl htrace⟩

theorem succeeds_iff {s : S} {txs : List Transaction} :
    Succeeds rt mgr s batchId txs ↔
      ∃ l, Run (TxStep rt mgr batchId) (BatchLoop.start mgr s) txs l := by
  constructor
  · intro h
    obtain ⟨s', trace, htrace⟩ := h.exists_trace
    obtain ⟨l, hr, -⟩ := executeBatch_ok_iff.mp htrace
    exact ⟨l, hr⟩
  · rintro ⟨l, hr⟩
    exact ⟨_, congrArg Prod.snd (executeBatch_ok_iff.mpr ⟨l, hr, rfl, rfl⟩)⟩

theorem executeBatch_fst {s : S} {txs : List Transaction} {l : BatchLoop S}
    (hr : Run (TxStep rt mgr batchId) (BatchLoop.start mgr s) txs l) :
    (executeBatch rt mgr s batchId txs).1 = l.state :=
  congrArg Prod.fst (executeBatch_ok_iff.mpr ⟨l, hr, rfl, rfl⟩)

/-- An engine between calls: its store, and the traces it has returned. -/
structure Session (S : Type*) where
  state : S
  traces : List ExecutionTraceV1

def Session.start (s : S) : Session S :=
  ⟨s, []⟩

def Session.included (e : Session S) : List Transaction :=
  e.traces.flatMap ExecutionTraceV1.executedTransactions

def executeCall (rt : Runtime) (mgr : StateManager S) (e : Session S)
    (call : String × List Transaction) : Except ExecutorError (Session S) :=
  match executeBatch rt mgr e.state call.1 call.2 with
  | (_, .error err) => .error err
  | (s, .ok trace) => .ok ⟨s, e.traces ++ [trace]⟩

def CallStep (rt : Runtime) (mgr : StateManager S) (e : Session S)
    (call : String × List Transaction) (e' : Session S) : Prop :=
  executeCall rt mgr e call = .ok e'

/-- Every iteration of every call meets `ok`, which is given the batch id. -/
def EachIteration (rt : Runtime) (mgr : StateManager S)
    (ok : String → BatchLoop S → Transaction → Prop) :
    Session S → List (String × List Transaction) → Prop :=
  Along (CallStep rt mgr) fun e call =>
    Along (TxStep rt mgr call.1) (ok call.1) (BatchLoop.start mgr e.state) call.2

theorem callStep_iff {e e' : Session S} {call : String × List Transaction} :
    CallStep rt mgr e call e' ↔
      ∃ l, Run (TxStep rt mgr call.1) (BatchLoop.start mgr e.state) call.2 l ∧
        e' = ⟨l.state,
          e.traces ++ [buildTrace rt call.1 (mgr.currentRoot e.state) l]⟩ := by
  unfold CallStep executeCall
  constructor
  · intro h
    split at h
    · cases h
    · rename_i s trace hexec
      obtain ⟨l, hr, rfl, rfl⟩ := executeBatch_ok_iff.mp hexec
      exact ⟨l, hr, (Except.ok.inj h).symm⟩
  · intro h
    obtain ⟨l, hr, rfl⟩ := h
    rw [executeBatch_ok_iff.mpr ⟨l, hr, rfl, rfl⟩]

theorem CallStep.unique {e e₁ e₂ : Session S} {call : String × List Transaction}
    (h₁ : CallStep rt mgr e call e₁) (h₂ : CallStep rt mgr e call e₂) : e₁ = e₂ :=
  Except.ok.inj (h₁.symm.trans h₂)

theorem exists_run_of_map {β : Type*} (rt : Runtime) (mgr : StateManager S) (s : S)
    (calls : List (String × List Transaction)) (f : Session S → β) {b : β}
    (h : (calls.foldlM (executeCall rt mgr) (Session.start s)).map f = .ok b) :
    ∃ e, Run (CallStep rt mgr) (Session.start s) calls e ∧ f e = b := by
  cases hf : calls.foldlM (executeCall rt mgr) (Session.start s) with
  | error err => simp [hf, Except.map] at h
  | ok e =>
    rw [hf] at h
    exact ⟨e, (foldlM_ok_iff _ _ _ _).mp hf, Except.ok.inj h⟩

theorem EachIteration.of_forall {ok : String → BatchLoop S → Transaction → Prop}
    {e : Session S} {calls : List (String × List Transaction)}
    (h : ∀ call ∈ calls, ∀ tx ∈ call.2, ∀ l, ok call.1 l tx) :
    EachIteration rt mgr ok e calls :=
  Along.of_forall fun call hcall _ => Along.of_forall fun tx htx l => h call hcall tx htx l

theorem EachIteration.mono {ok ok' : String → BatchLoop S → Transaction → Prop}
    {e e' : Session S} {calls : List (String × List Transaction)}
    (hr : Run (CallStep rt mgr) e calls e')
    (himp : ∀ id l tx l', TxStep rt mgr id l tx l' → ok id l tx → ok' id l tx)
    (h : EachIteration rt mgr ok e calls) : EachIteration rt mgr ok' e calls := by
  refine Along.mono_of_run (fun _ _ _ _ h₁ h₂ => h₁.unique h₂) hr ?_ h
  intro k call k' hcall hok
  obtain ⟨l, hl, -⟩ := callStep_iff.mp hcall
  exact hok.mono_of_run (fun _ _ _ _ h₁ h₂ => h₁.unique h₂) hl (himp call.1)

/-- Writes do not fail on the stores that meet `good`, and lead to such stores. -/
structure StateManager.Writable (mgr : StateManager S) (good : S → Prop) : Prop where
  exists_ok {s : S} (address : Address) (account : Account) : good s →
    ∃ r, mgr.setAccount s address account = .ok r
  keeps {s s' : S} {address : Address} {account : Account} {diff : StateDiff} : good s →
    mgr.setAccount s address account = .ok (diff, s') → good s'

theorem TxStep.writable {l l' : BatchLoop S} {tx : Transaction} {good : S → Prop}
    (hw : mgr.Writable good) (hl : good l.state) (hstep : TxStep rt mgr batchId l tx l') :
    good l'.state := by
  by_cases hadm : Admitted rt mgr batchId l tx
  · obtain ⟨d₁, s₁, d₂, s₂, h₁, h₂, rfl⟩ := executeTx_of_admitted hadm hstep
    exact hw.keeps (hw.keeps hl h₁) h₂
  · rw [(hstep.frame hadm).1]
    exact hl

theorem StateManager.Writable.exists_txStep {good : S → Prop} (hw : mgr.Writable good)
    {l : BatchLoop S} (hl : good l.state) (tx : Transaction) :
    ∃ l', TxStep rt mgr batchId l tx l' := by
  by_cases hadm : Admitted rt mgr batchId l tx
  · obtain ⟨⟨d₁, s₁⟩, h₁⟩ := hw.exists_ok tx.sender
      (debited tx (mgr.getAccount l.state tx.sender)) hl
    obtain ⟨⟨d₂, s₂⟩, h₂⟩ := hw.exists_ok tx.receiver
      (credited tx (mgr.getAccount l.state tx.receiver)) (hw.keeps hl h₁)
    exact ⟨_, txStep_push hadm h₁ h₂⟩
  · obtain ⟨why, he⟩ := executeTx_of_not_admitted hadm
    exact ⟨_, he⟩

theorem StateManager.Writable.succeeds {good : S → Prop} (hw : mgr.Writable good) {s : S}
    (hs : good s) (batchId : String) (txs : List Transaction) :
    Succeeds rt mgr s batchId txs := by
  rw [succeeds_iff]
  have hl : good (BatchLoop.start mgr s).state := hs
  generalize BatchLoop.start mgr s = l at hl ⊢
  induction txs generalizing l with
  | nil => exact ⟨l, .nil l⟩
  | cons tx txs ih =>
    obtain ⟨l', hstep⟩ := hw.exists_txStep hl tx
    obtain ⟨l'', hr⟩ := ih l' (hstep.writable hw hl)
    exact ⟨l'', .cons hstep hr⟩

theorem succeeds_of_setAccount (hset : ∀ s a acc, ∃ r, mgr.setAccount s a acc = .ok r)
    (s : S) (txs : List Transaction) : Succeeds rt mgr s batchId txs := by
  have hw : mgr.Writable fun _ => True := ⟨fun a acc _ => hset _ a acc, fun _ _ => trivial⟩
  exact hw.succeeds trivial batchId txs

theorem InMemoryStateManager.succeeds (rt : Runtime) (sha256 : List UInt8 → Hash)
    (s : InMemoryStateManager) (batchId : String) (txs : List Transaction) :
    Succeeds rt (stateManager sha256) s batchId txs :=
  succeeds_of_setAccount (fun s a acc => ⟨s.setAccount a acc, rfl⟩) s txs

def localRuntime : Runtime where
  sha256 := Sha256.hash
  keccak256 := Keccak.hash
  recoverKey _ _ _ := none
  nowUnixSecs := 0
  allowUnsignedUserTxs := some "1"
  executorBuildId := none
  risc0GuestMethodId := none
  risc0HostBin := none
  risc0GuestElf := none

def memory : StateManager InMemoryStateManager :=
  InMemoryStateManager.stateManager Sha256.hash

def alice : Address := Vector.replicate 20 1

def bob : Address := Vector.replicate 20 2

def charlie : Address := Vector.replicate 20 3

def aliceStore : InMemoryStateManager :=
  (InMemoryStateManager.default Sha256.hash).seedAccount alice ⟨100, 0⟩

def payment (sender receiver : Address) (amount nonce : UInt64) : Transaction :=
  ⟨sender, receiver, amount, nonce, [], 0, 0, 0, 0⟩

end RollupX.Executor
