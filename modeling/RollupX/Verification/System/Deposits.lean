import RollupX.Model.Sequencer.Orchestrator
import RollupX.Verification.Executor.Engine
import RollupX.Verification.Sequencer.Signing

/-! Whether a deposit on L1 arrives on L2. -/

namespace RollupX.Sequencer

open Machine Fallible
open Executor (Address EthSignature StateManager Runtime BatchLoop Session TxStep CallStep
  EachIteration Admitted normalizeTransaction normalizeTransactions parseBatchData maxIncluded
  u256ToU64Checked_ok rejection_eq_none_iff credited allowUnsigned localRuntime memory
  aliceStore alice bob charlie)

/-- The executor's form of a forced transaction whose value fits in 64 bits. It is unsigned. -/
def ForcedTransaction.toExecutor (ftx : ForcedTransaction) : Executor.Transaction where
  sender := ftx.sender
  receiver := ftx.receiver
  amount := UInt64.ofNat ftx.value.toNat
  nonce := ftx.nonce
  signature := []
  gasPrice := 0
  gasLimit := ftx.gasLimit
  timestamp := ftx.timestamp
  boostBid := 0

def unsigned (txs : List Executor.Transaction) : List Executor.Transaction :=
  txs.filter fun tx => tx.signature.isEmpty

theorem normalizeTransaction_forced {ftx : ForcedTransaction} {out : Executor.Transaction}
    (h : normalizeTransaction (Transaction.forced ftx).toSequencer = .ok out) :
    out = ftx.toExecutor := by
  obtain ⟨amount, hamount, hout⟩ := bind_ok_iff.mp h
  have htoNat := u256ToU64Checked_ok hamount
  have hofNat : amount = UInt64.ofNat ftx.value.toNat := by
    rw [← htoNat, UInt64.ofNat_toNat]
  rw [← Except.ok.inj hout, hofNat]
  rfl

theorem unsigned_of_forall₂ {txs : List Transaction} {outs : List Executor.Transaction}
    (h : List.Forall₂ (fun tx out => normalizeTransaction tx.toSequencer = .ok out) txs outs) :
    unsigned outs = (txs.filterMap Transaction.asForced).map ForcedTransaction.toExecutor := by
  induction h with
  | nil => rfl
  | @cons tx out txs outs hhead _ ih =>
    unfold unsigned at ih ⊢
    cases tx with
    | normal ptx =>
      have hsigned := (converts_of_normalizeTransaction hhead).isEmpty_signature
      simp [hsigned, List.filterMap_cons, Transaction.asForced, ih]
    | forced ftx =>
      rw [normalizeTransaction_forced hhead]
      simp [ForcedTransaction.toExecutor, Transaction.asForced, ih]

/-- The call of the engine that a published batch leads to. -/
structure Delivers {β : Type*} (text : JsonText β) (fromStr : List Char → Option EthSignature)
    (batch : Batch) (call : String × List Executor.Transaction) : Prop where
  id : call.1 = toString batch.batchId.toNat
  data : ∃ parsed, parseBatchData text fromStr (executorBatchData text batch) = some parsed ∧
    normalizeTransactions parsed = .ok call.2

variable {β : Type*} {text : JsonText β} {fromStr : List Char → Option EthSignature}

theorem Delivers.unsigned_eq {batch : Batch} {call : String × List Executor.Transaction}
    (htext : batch.ReadsBack text) (h : Delivers text fromStr batch call) :
    unsigned call.2 = batch.forced.map ForcedTransaction.toExecutor := by
  obtain ⟨parsed, hparse, hnormalize⟩ := h.data
  rw [parseBatchData_executorBatchData htext] at hparse
  rw [← Option.some.inj hparse, normalizeTransactions, mapM_ok_iff,
    List.forall₂_map_left_iff] at hnormalize
  exact unsigned_of_forall₂ hnormalize

theorem unsigned_calls {batches : List Batch} {calls : List (String × List Executor.Transaction)}
    (htext : ∀ batch ∈ batches, batch.ReadsBack text)
    (h : List.Forall₂ (Delivers text fromStr) batches calls) :
    calls.flatMap (fun call => unsigned call.2) =
      (batches.flatMap Batch.forced).map ForcedTransaction.toExecutor := by
  induction h with
  | nil => rfl
  | cons hhead _ ih =>
    rw [List.forall_mem_cons] at htext
    rw [List.flatMap_cons, List.flatMap_cons, List.map_append, ih htext.2,
      hhead.unsigned_eq htext.1]

variable {S : Type*} {rt : Runtime} {mgr : StateManager S}

/-- Executing the transaction raises the balance of its receiver by exactly its amount. -/
def Credits (rt : Runtime) (mgr : StateManager S) (id : String) (l : BatchLoop S)
    (tx : Executor.Transaction) : Prop :=
  ∀ l', TxStep rt mgr id l tx l' →
    (mgr.getAccount l'.state tx.receiver).balance.toNat =
      (mgr.getAccount l.state tx.receiver).balance.toNat + tx.amount.toNat

/-- The amount is zero, or the sender can pay it: they have the nonce of the transaction and
the balance, the batch has room, and the receiver's balance does not overflow. -/
def Payable (mgr : StateManager S) (id : String) (l : BatchLoop S) (tx : Executor.Transaction) :
    Prop :=
  tx.amount = 0 ∨
    (mgr.getAccount l.state tx.sender).nonce = tx.nonce ∧
      tx.amount ≤ (mgr.getAccount l.state tx.sender).balance ∧
      l.executed.length < maxIncluded id ∧
      (mgr.getAccount l.state tx.receiver).balance.toNat + tx.amount.toNat < 2 ^ 64

instance (mgr : StateManager S) (id : String) (l : BatchLoop S) (tx : Executor.Transaction) :
    Decidable (Payable mgr id l tx) :=
  inferInstanceAs (Decidable (_ ∨ _))

theorem admitted_iff_of_unsigned (mgr : StateManager S) (id : String) (l : BatchLoop S)
    (hunsigned : allowUnsigned rt = true) {tx : Executor.Transaction} (hsig : tx.signature = []) :
    Admitted rt mgr id l tx ↔
      (mgr.getAccount l.state tx.sender).nonce = tx.nonce ∧
        tx.amount ≤ (mgr.getAccount l.state tx.sender).balance ∧
        l.executed.length < maxIncluded id := by
  have hverify : Executor.verifySignature rt tx = true := by
    simp [Executor.verifySignature, hsig, hunsigned]
  rw [Admitted, rejection_eq_none_iff, and_assoc, and_assoc]
  exact and_iff_right hverify

theorem credits_iff_of_admitted (hm : mgr.Lawful) {id : String} {l l' : BatchLoop S}
    {tx : Executor.Transaction} (hstep : TxStep rt mgr id l tx l')
    (hadm : Admitted rt mgr id l tx) :
    Credits rt mgr id l tx ↔
      tx.amount = 0 ∨
        (mgr.getAccount l.state tx.receiver).balance.toNat + tx.amount.toNat < 2 ^ 64 := by
  have hlt := (mgr.getAccount l.state tx.receiver).balance.toNat_lt
  have hafter : (mgr.getAccount l'.state tx.receiver).balance.toNat =
      min ((mgr.getAccount l.state tx.receiver).balance.toNat + tx.amount.toNat)
        (2 ^ 64 - 1) := by
    rw [hstep.getAccount hm hadm, Function.update_self, credited, Bytes.toNat_saturatingAdd]
  have hzero : tx.amount = 0 ↔ tx.amount.toNat = 0 := by
    rw [← UInt64.toNat_inj]
    rfl
  rw [hzero]
  constructor
  · intro hcredits
    have := hcredits l' hstep
    omega
  · intro hfits k hk
    rw [hk.unique hstep, hafter]
    omega

theorem credits_iff_of_not_admitted {id : String} {l l' : BatchLoop S}
    {tx : Executor.Transaction} (hstep : TxStep rt mgr id l tx l')
    (hadm : ¬Admitted rt mgr id l tx) : Credits rt mgr id l tx ↔ tx.amount = 0 := by
  have hframe : ∀ k, TxStep rt mgr id l tx k → k.state = l.state := fun k hk => (hk.frame hadm).1
  rw [← UInt64.toNat_inj]
  constructor
  · intro hcredits
    have := hcredits l' hstep
    rw [hframe l' hstep] at this
    exact Nat.add_eq_left.mp this.symm
  · intro hzero k hk
    rw [hframe k hk, hzero]
    rfl

theorem credits_iff_payable (hunsigned : allowUnsigned rt = true) (hm : mgr.Lawful)
    {id : String} {l l' : BatchLoop S} {tx : Executor.Transaction}
    (hstep : TxStep rt mgr id l tx l') (hsig : tx.signature = []) :
    Credits rt mgr id l tx ↔ Payable mgr id l tx := by
  have hiff := admitted_iff_of_unsigned mgr id l hunsigned hsig
  by_cases hadm : Admitted rt mgr id l tx
  · rw [credits_iff_of_admitted hm hstep hadm, Payable]
    have := hiff.mp hadm
    tauto
  · rw [credits_iff_of_not_admitted hstep hadm, Payable]
    tauto

/-- The executor's form of a deposit that the listener handles at a given time. -/
def depositTransaction (event : L1Log × UInt64) : Executor.Transaction :=
  (handleDepositEvent event.1 event.2).toExecutor

theorem toNat_amount_depositTransaction {event : L1Log × UInt64}
    (h : event.1.value.toNat < 2 ^ 64) :
    (depositTransaction event).amount.toNat = event.1.value.toNat := by
  simp only [depositTransaction, ForcedTransaction.toExecutor, handleDepositEvent,
    UInt64.toNat_ofNat']
  exact Nat.mod_eq_of_lt h

/-- Whatever else the batches hold, the unsigned transactions that are executed are the
deposits, each once. All of them are credited if and only if the depositor of each can pay it
on L2 from an account that has not sent anything. -/
theorem deposits_credited_iff (text : JsonText β)
    (fromStr : List Char → Option EthSignature) (hunsigned : allowUnsigned rt = true)
    (hm : mgr.Lawful) (s : S) (events : List (L1Log × UInt64))
    (hvalue : ∀ event ∈ events, event.1.value.toNat < 2 ^ 64) (batches : List Batch)
    (htext : ∀ batch ∈ batches, batch.ReadsBack text)
    (hsealed : (batches.flatMap Batch.forced).Perm
      (events.map fun event => handleDepositEvent event.1 event.2))
    (calls : List (String × List Executor.Transaction))
    (hcalls : List.Forall₂ (Delivers text fromStr) batches calls) (e : Session S)
    (hr : Run (CallStep rt mgr) (Session.start s) calls e) :
    (calls.flatMap fun call => unsigned call.2).Perm (events.map depositTransaction) ∧
      (∀ event ∈ events, (depositTransaction event).sender = event.1.sender ∧
        (depositTransaction event).receiver = event.1.receiver ∧
        (depositTransaction event).amount.toNat = event.1.value.toNat ∧
        (depositTransaction event).nonce = 0) ∧
      (EachIteration rt mgr (fun id l tx => tx.signature = [] → Credits rt mgr id l tx)
          (Session.start s) calls ↔
        EachIteration rt mgr (fun id l tx => tx.signature = [] → Payable mgr id l tx)
          (Session.start s) calls) := by
  refine ⟨?_, fun event hevent => ⟨rfl, rfl, ?_, rfl⟩, ?_⟩
  · rw [unsigned_calls htext hcalls]
    have hmap := hsealed.map ForcedTransaction.toExecutor
    rwa [List.map_map] at hmap
  · exact toNat_amount_depositTransaction (hvalue event hevent)
  · constructor
    · exact EachIteration.mono hr fun id l tx l' hstep h hsig =>
        (credits_iff_payable hunsigned hm hstep hsig).mp (h hsig)
    · exact EachIteration.mono hr fun id l tx l' hstep h hsig =>
        (credits_iff_payable hunsigned hm hstep hsig).mpr (h hsig)

def depositEvent (sender receiver : Address) (value : U256) : L1Log × UInt64 :=
  (⟨sender, receiver, value, none, some 7⟩, 0)

def depositBatch (events : List (L1Log × UInt64)) : Batch :=
  batchOf (events.map fun event => .forced (handleDepositEvent event.1 event.2))

def depositCall (events : List (L1Log × UInt64)) : String × List Executor.Transaction :=
  ("1", events.map depositTransaction)

theorem delivers_depositBatch {events : List (L1Log × UInt64)}
    (h : normalizeTransactions ((depositBatch events).transactions.map Transaction.toSequencer) =
      .ok (events.map depositTransaction)) :
    Delivers plainText (fun _ => none) (depositBatch events) (depositCall events) where
  id := by
    change "1" = toString (1 : UInt64).toNat
    decide
  data := ⟨_, parseBatchData_executorBatchData (readsBack_plainText _) _, h⟩

def twoDepositors : Executor.InMemoryStateManager :=
  aliceStore.seedAccount charlie ⟨40, 0⟩

theorem firstDeposits_credited :
    ∃ e, Run (CallStep localRuntime memory) (Session.start twoDepositors)
        [depositCall [depositEvent alice bob 10, depositEvent charlie bob 5]] e ∧
      (memory.getAccount e.state bob).balance = 15 ∧
      EachIteration localRuntime memory
        (fun id l tx => tx.signature = [] → Credits localRuntime memory id l tx)
        (Session.start twoDepositors)
        [depositCall [depositEvent alice bob 10, depositEvent charlie bob 5]] := by
  obtain ⟨e, hr, hbalance⟩ := Executor.exists_run_of_map localRuntime memory twoDepositors
    [depositCall [depositEvent alice bob 10, depositEvent charlie bob 5]]
    (fun e => (memory.getAccount e.state bob).balance) (b := 15) (by decide +kernel)
  have hiff := (deposits_credited_iff plainText (fun _ => none)
    (by decide) (Executor.InMemoryStateManager.lawful Sha256.hash) twoDepositors
    [depositEvent alice bob 10, depositEvent charlie bob 5] (by decide)
    [depositBatch [depositEvent alice bob 10, depositEvent charlie bob 5]]
    (fun batch _ => readsBack_plainText batch)
    (List.Perm.refl _) _ (.cons (delivers_depositBatch rfl) .nil) e hr).2.2
  have hsecond : ∀ l', TxStep localRuntime memory "1" (BatchLoop.start memory twoDepositors)
      (depositTransaction (depositEvent alice bob 10)) l' →
        Payable memory "1" l' (depositTransaction (depositEvent charlie bob 5)) := by
    intro l' hstep
    exact of_decide_eq_true (hstep.eq_of_map
      (f := fun l =>
        decide (Payable memory "1" l (depositTransaction (depositEvent charlie bob 5))))
      (by decide +kernel))
  exact ⟨e, hr, hbalance, hiff.mpr ⟨⟨fun _ => by decide +kernel, fun l' hstep =>
    ⟨fun _ => hsecond l' hstep, fun _ _ => trivial⟩⟩, fun _ _ => trivial⟩⟩

/-- On a new store a deposit is rejected, and the balance stays zero. Where the depositor has
100, the first of two deposits of 10 is credited and the second is rejected. -/
theorem deposits_not_credited :
    Delivers plainText (fun _ => none) (depositBatch [depositEvent bob bob 10])
        (depositCall [depositEvent bob bob 10]) ∧
      (∃ e, Run (CallStep localRuntime memory)
          (Session.start (Executor.InMemoryStateManager.default Sha256.hash))
          [depositCall [depositEvent bob bob 10]] e ∧
        ((memory.getAccount e.state bob).balance, e.included) = (0, [])) ∧
      Delivers plainText (fun _ => none)
        (depositBatch [depositEvent alice bob 10, depositEvent alice bob 10])
        (depositCall [depositEvent alice bob 10, depositEvent alice bob 10]) ∧
      ∃ e, Run (CallStep localRuntime memory) (Session.start aliceStore)
          [depositCall [depositEvent alice bob 10, depositEvent alice bob 10]] e ∧
        (memory.getAccount e.state bob).balance = 10 := by
  refine ⟨delivers_depositBatch rfl, ?_, delivers_depositBatch rfl, ?_⟩
  · exact Executor.exists_run_of_map _ _ _ _
      (fun e => ((memory.getAccount e.state bob).balance, e.included)) (by decide +kernel)
  · exact Executor.exists_run_of_map _ _ _ _
      (fun e => (memory.getAccount e.state bob).balance) (by decide +kernel)

end RollupX.Sequencer
