import RollupX.Library.Fallible
import RollupX.Model.Executor.Payload
import RollupX.Model.Sequencer.Payload

/-! Whether the executor accepts what the sequencer sends. The JSON that the sequencer writes is
read back as it was. -/

namespace RollupX.Sequencer

open Fallible
open Executor (Address EthSignature SequencerTransaction NormalizeFailure normalizeTransaction
  normalizeTransactions parseBatchData)

@[simp] theorem u64OfJson_u64ToJson (x : UInt64) : Executor.u64OfJson (u64ToJson x) = some x := by
  simp [Executor.u64OfJson, u64ToJson, Json.asNumber, x.toNat_lt]

@[simp] theorem u256OfJson_toJson (x : U256) : Executor.u256OfJson x.toJson = some x := by
  have hlt : x.toNat < 16 ^ 64 := by
    have := x.isLt
    norm_num at this ⊢
    exact this
  simp [Executor.u256OfJson, U256.toJson, Json.asString,
    Hex.readQuantity_quantity (by norm_num) hlt]

@[simp] theorem addressOfJson_addressToJson (a : Address) :
    Executor.addressOfJson (addressToJson a) = some a := by
  have hread : Hex.readBytes 20 (Hex.bytes a.toList) = some a.toList := by
    simpa using Hex.readBytes_bytes a.toList
  simp [Executor.addressOfJson, addressToJson, Json.asString, hread]
  exact Array.toArray_toList

def Signature.toEth (sig : Signature) : EthSignature :=
  ⟨sig.r, sig.s, sig.v⟩

@[simp] theorem deserializeSignature_toJson (fromStr : List Char → Option EthSignature)
    (sig : Signature) :
    Executor.deserializeSignature fromStr sig.toJson = some sig.toEth := by
  simp [Executor.deserializeSignature, Signature.toJson, EthSignature.ofJson, Json.field,
    List.lookup_cons, Signature.toEth]

@[simp] theorem optionU256OfField_some (x : U256) :
    Executor.optionU256OfField (some x.toJson) = some (some x) := by
  have hread := u256OfJson_toJson x
  rw [U256.toJson] at hread ⊢
  simp [Executor.optionU256OfField, hread]

/-- What the executor reads for a transaction. -/
def Transaction.toSequencer : Transaction → SequencerTransaction
  | .normal ptx =>
    .normal ⟨ptx.tx.sender, ptx.tx.receiver, ptx.tx.value, ptx.tx.nonce, ptx.tx.gasPrice,
      ptx.tx.gasLimit, ptx.tx.signature.toEth.toVec, ptx.tx.timestamp, ptx.tx.boostBid⟩
  | .forced ftx =>
    .forced ⟨ftx.sender, ftx.receiver, ftx.value, ftx.nonce, ftx.gasLimit, ftx.timestamp⟩

theorem ofJson_toExecutorJson (fromStr : List Char → Option EthSignature) (tx : Transaction) :
    SequencerTransaction.ofJson fromStr tx.toExecutorJson = some tx.toSequencer := by
  cases tx with
  | normal ptx =>
    cases hbid : ptx.tx.boostBid with
    | none =>
      simp [Transaction.toExecutorJson, SequencerTransaction.ofJson, UserTransaction.toJson,
        Executor.SequencerUserTransaction.ofJson, Json.field, List.lookup_cons,
        Transaction.toSequencer, hbid, Executor.optionU256OfField]
    | some bid =>
      simp [Transaction.toExecutorJson, SequencerTransaction.ofJson, UserTransaction.toJson,
        Executor.SequencerUserTransaction.ofJson, Json.field, List.lookup_cons,
        Transaction.toSequencer, hbid]
  | forced ftx =>
    simp [Transaction.toExecutorJson, SequencerTransaction.ofJson,
      Executor.SequencerForcedTransaction.ofJson, Json.field, List.lookup_cons,
      Transaction.toSequencer]

/-- The text of the batch is read back as the value that it was written for. -/
def Batch.ReadsBack {β : Type*} (text : JsonText β) (batch : Batch) : Prop :=
  text.read (executorBatchData text batch) =
    .ok (.array (batch.transactions.map Transaction.toExecutorJson))

theorem parseBatchData_executorBatchData {β : Type*} {text : JsonText β} {batch : Batch}
    (htext : batch.ReadsBack text) (fromStr : List Char → Option EthSignature) :
    parseBatchData text fromStr (executorBatchData text batch) =
      some (batch.transactions.map Transaction.toSequencer) := by
  rw [Batch.ReadsBack] at htext
  simp only [parseBatchData, htext, Json.asArray]
  refine (mapM_some_iff _ _ _).mpr ?_
  rw [List.forall₂_map_left_iff, List.forall₂_map_right_iff]
  exact List.forall₂_same.mpr fun tx _ => ofJson_toExecutorJson fromStr tx

/-- Every amount of the transaction fits in 64 bits. -/
def Transaction.FitsU64 : Transaction → Prop
  | .normal ptx =>
    ptx.tx.value.toNat < 2 ^ 64 ∧ ptx.tx.gasPrice.toNat < 2 ^ 64 ∧
      ∀ bid ∈ ptx.tx.boostBid, bid.toNat < 2 ^ 64
  | .forced ftx => ftx.value.toNat < 2 ^ 64

theorem exists_u256ToU64Checked_iff (x : U256) (label : String) :
    (∃ y, Executor.u256ToU64Checked x label = .ok y) ↔ x.toNat < 2 ^ 64 :=
  exists_ite_ok_iff

theorem exists_asU64_iff (x : U256) :
    (∃ y, Executor.asU64 x = .ok y) ↔ x.toNat < 2 ^ 64 :=
  exists_ite_ok_iff

theorem exists_normalizeTransaction_iff (tx : Transaction) :
    (∃ out, normalizeTransaction tx.toSequencer = .ok out) ↔ tx.FitsU64 := by
  cases tx with
  | normal ptx =>
    rw [Transaction.FitsU64, ← exists_u256ToU64Checked_iff ptx.tx.value "value",
      ← exists_u256ToU64Checked_iff ptx.tx.gasPrice "gas_price"]
    cases hbid : ptx.tx.boostBid with
    | none =>
      simp only [Transaction.toSequencer, normalizeTransaction, hbid, exists_bind_ok_iff]
      simp [pure, Except.pure]
    | some bid =>
      simp only [Transaction.toSequencer, normalizeTransaction, hbid, exists_bind_ok_iff,
        Option.mem_some_iff, forall_eq', ← exists_asU64_iff]
      simp [pure, Except.pure]
  | forced ftx =>
    rw [Transaction.FitsU64, ← exists_u256ToU64Checked_iff ftx.value "value"]
    simp only [Transaction.toSequencer, normalizeTransaction, exists_bind_ok_iff]
    simp [pure, Except.pure]

/-- The executor reads a batch of the sequencer and converts it if and only if every amount
in it fits in 64 bits. -/
theorem batch_acceptable_iff {β : Type*} (text : JsonText β)
    (fromStr : List Char → Option EthSignature) (batch : Batch) (htext : batch.ReadsBack text) :
    (∃ parsed, parseBatchData text fromStr (executorBatchData text batch) = some parsed ∧
        ∃ txs, normalizeTransactions parsed = .ok txs) ↔
      ∀ tx ∈ batch.transactions, tx.FitsU64 := by
  simp only [parseBatchData_executorBatchData htext, Option.some.injEq, exists_eq_left',
    normalizeTransactions, exists_mapM_ok_iff, List.forall_mem_map,
    exists_normalizeTransaction_iff]

def plainText : JsonText Json :=
  ⟨id, .ok⟩

theorem readsBack_plainText (batch : Batch) : batch.ReadsBack plainText :=
  rfl

def boostedPayment (boostBid : Option U256) : PooledTransaction :=
  ⟨⟨Vector.replicate 20 7, Vector.replicate 20 8, 1, 0, 0, 21000, ⟨1, 1, 27⟩, 0, boostBid⟩,
    0, 0, 0⟩

def etherDeposit (ether : ℕ) : ForcedTransaction :=
  handleDepositEvent
    ⟨Vector.replicate 20 5, Vector.replicate 20 5, BitVec.ofNat 256 (ether * 10 ^ 18), none, none⟩ 0

def batchOf (transactions : List Transaction) : Batch :=
  ⟨1, transactions, Vector.replicate 32 0, 0⟩

theorem acceptable_smallAmounts :
    ∃ parsed, parseBatchData plainText (fun _ => none)
        (executorBatchData plainText
          (batchOf [.forced (etherDeposit 1), .normal (boostedPayment (some 5))])) =
          some parsed ∧
      ∃ txs, normalizeTransactions parsed = .ok txs := by
  refine (batch_acceptable_iff plainText (fun _ => none) _ (readsBack_plainText _)).mpr ?_
  simp [batchOf, Transaction.FitsU64, etherDeposit, handleDepositEvent, boostedPayment]

/-- A signature that recovers to the sender of the payment, and a cache with ten units. -/
def paymentCrypto : Crypto :=
  ⟨fun _ => Vector.replicate 32 0, fun _ _ => some (Vector.replicate 20 7)⟩

def paymentCache : StateCache :=
  fun a => some ⟨a, 10, 0⟩

/-- A bid of 2^64 costs nothing and passes the validation, and the executor panics on it. A
deposit of twenty ether makes it refuse the payment in the same batch. -/
theorem refused_largeAmounts :
    validate paymentCrypto paymentCache (boostedPayment (some (BitVec.ofNat 256 (2 ^ 64)))).tx =
        some (.ok ()) ∧
      (∃ parsed, parseBatchData plainText (fun _ => none)
          (executorBatchData plainText
            (batchOf [.normal (boostedPayment (some (BitVec.ofNat 256 (2 ^ 64))))])) =
            some parsed ∧
        normalizeTransactions parsed = .error .panic) ∧
      validate paymentCrypto paymentCache (boostedPayment none).tx = some (.ok ()) ∧
      ∃ parsed, parseBatchData plainText (fun _ => none)
          (executorBatchData plainText
            (batchOf [.forced (etherDeposit 20), .normal (boostedPayment none)])) =
            some parsed ∧
        normalizeTransactions parsed = .error (.error (.invalidPayload "value exceeds u64")) := by
  have hparse (batch : Batch) :=
    parseBatchData_executorBatchData (readsBack_plainText batch) fun _ => none
  refine ⟨rfl, ⟨_, hparse _, rfl⟩, rfl, ⟨_, hparse _, rfl⟩⟩

end RollupX.Sequencer
