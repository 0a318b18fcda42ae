import RollupX.Model.Executor.TxEngine
import RollupX.Verification.Sequencer.Payload

/-! What a signature covers, and whether the executor accepts what the sequencer accepted. -/

namespace RollupX.Sequencer

open Fallible
open Executor (Hash Address EthSignature SequencerTransaction SequencerUserTransaction
  normalizeTransaction normalizeTransactions parseBatchData txHashPreimage u64ToU256Be
  u256ToU64Checked_ok recoveryIdFromByte)

@[simp] theorem U256.length_toBigEndian (x : U256) : x.toBigEndian.length = 32 :=
  Bytes.length_be 32 x.toNat

theorem U256.toBigEndian_inj {x y : U256} : x.toBigEndian = y.toBigEndian ↔ x = y := by
  have hx := x.isLt
  have hy := y.isLt
  rw [toBigEndian, toBigEndian, Bytes.be_inj (by omega) (by omega), BitVec.toNat_inj]

theorem be_u64_inj {x y : UInt64} : Bytes.be 8 x.toNat = Bytes.be 8 y.toNat ↔ x = y := by
  rw [Bytes.be_inj x.toNat_lt y.toNat_lt, UInt64.toNat_inj]

theorem address_toList_inj {a b : Address} : a.toList = b.toList ↔ a = b :=
  ⟨fun h => Vector.toArray_inj.mp (Array.toList_inj.mp h), fun h => h ▸ rfl⟩

theorem u64ToU256Be_eq {x : UInt64} {y : U256} (h : x.toNat = y.toNat) :
    u64ToU256Be x = y.toBigEndian := by
  rw [u64ToU256Be, U256.toBigEndian, ← h]
  exact (Bytes.be_add_of_lt 24 x.toNat_lt).symm

theorem toBigEndian_zero : U256.toBigEndian 0 = List.replicate 32 0 := by
  decide

theorem UserTransaction.hashPreimage_eq (tx : UserTransaction) :
    tx.hashPreimage =
      tx.sender.toList ++ tx.receiver.toList ++ tx.value.toBigEndian ++
        Bytes.be 8 tx.nonce.toNat ++ tx.gasPrice.toBigEndian ++ Bytes.be 8 tx.timestamp.toNat ++
        (tx.boostBid.getD 0).toBigEndian := by
  unfold hashPreimage
  cases tx.boostBid with
  | none => rw [Option.getD_none, toBigEndian_zero]
  | some bid => rfl

theorem UserTransaction.length_hashPreimage (tx : UserTransaction) :
    tx.hashPreimage.length = 152 := by
  simp [hashPreimage_eq]

theorem UserTransaction.hashPreimage_eq_iff (tx tx' : UserTransaction) :
    tx.hashPreimage = tx'.hashPreimage ↔
      tx.sender = tx'.sender ∧ tx.receiver = tx'.receiver ∧ tx.value = tx'.value ∧
        tx.nonce = tx'.nonce ∧ tx.gasPrice = tx'.gasPrice ∧ tx.timestamp = tx'.timestamp ∧
        tx.boostBid.getD 0 = tx'.boostBid.getD 0 := by
  rw [hashPreimage_eq, hashPreimage_eq]
  constructor
  · intro h
    obtain ⟨h, hbid⟩ := List.append_inj' h (by simp)
    obtain ⟨h, htimestamp⟩ := List.append_inj' h (by simp)
    obtain ⟨h, hgasPrice⟩ := List.append_inj' h (by simp)
    obtain ⟨h, hnonce⟩ := List.append_inj' h (by simp)
    obtain ⟨h, hvalue⟩ := List.append_inj' h (by simp)
    obtain ⟨hsender, hreceiver⟩ := List.append_inj' h (by simp)
    exact ⟨address_toList_inj.mp hsender, address_toList_inj.mp hreceiver,
      U256.toBigEndian_inj.mp hvalue, be_u64_inj.mp hnonce, U256.toBigEndian_inj.mp hgasPrice,
      be_u64_inj.mp htimestamp, U256.toBigEndian_inj.mp hbid⟩
  · rintro ⟨hsender, hreceiver, hvalue, hnonce, hgasPrice, htimestamp, hbid⟩
    rw [hsender, hreceiver, hvalue, hnonce, hgasPrice, htimestamp, hbid]

/-- Agreement on every field but the signature. -/
structure UserTransaction.SameFields (tx tx' : UserTransaction) : Prop where
  sender : tx.sender = tx'.sender
  receiver : tx.receiver = tx'.receiver
  value : tx.value = tx'.value
  nonce : tx.nonce = tx'.nonce
  gasPrice : tx.gasPrice = tx'.gasPrice
  gasLimit : tx.gasLimit = tx'.gasLimit
  timestamp : tx.timestamp = tx'.timestamp
  boostBid : tx.boostBid = tx'.boostBid

theorem boostBid_eq_of_getD_eq {x y : Option U256} (h : x.getD 0 = y.getD 0)
    (hsome : x.isSome = y.isSome) : x = y := by
  cases x with
  | none => cases y with
    | none => rfl
    | some _ => cases hsome
  | some bid => cases y with
    | none => cases hsome
    | some bid' => exact congrArg some h

/-- The preimage fixes the transaction up to the gas limit and the difference between no bid
and the bid 0. -/
theorem sameFields_iff_of_hashPreimage_eq (tx tx' : UserTransaction)
    (h : tx.hashPreimage = tx'.hashPreimage) :
    tx.SameFields tx' ↔
      tx.gasLimit = tx'.gasLimit ∧ tx.boostBid.isSome = tx'.boostBid.isSome := by
  obtain ⟨hsender, hreceiver, hvalue, hnonce, hgasPrice, htimestamp, hbid⟩ :=
    (UserTransaction.hashPreimage_eq_iff tx tx').mp h
  constructor
  · intro hsame
    exact ⟨hsame.gasLimit, congrArg Option.isSome hsame.boostBid⟩
  · rintro ⟨hgasLimit, hsome⟩
    exact ⟨hsender, hreceiver, hvalue, hnonce, hgasPrice, hgasLimit, htimestamp,
      boostBid_eq_of_getD_eq hbid hsome⟩

def gasPayment (gasLimit : UInt64) (sig : Signature) : UserTransaction :=
  { (boostedPayment none).tx with gasPrice := 1, gasLimit, signature := sig }

theorem sameFields_otherSignature :
    (gasPayment 21000 ⟨1, 1, 27⟩).SameFields (gasPayment 21000 ⟨1, 2, 28⟩) :=
  (sameFields_iff_of_hashPreimage_eq (gasPayment 21000 ⟨1, 1, 27⟩)
    (gasPayment 21000 ⟨1, 2, 28⟩) rfl).mpr ⟨rfl, rfl⟩

/-- Whoever passes the payment on may double its gas limit, and with it nearly double what the
sender is charged. The signature stays valid. -/
theorem hashPreimage_otherGasLimit :
    (gasPayment 21000 ⟨1, 1, 27⟩).hashPreimage = (gasPayment 42000 ⟨1, 1, 27⟩).hashPreimage ∧
      ¬ (gasPayment 21000 ⟨1, 1, 27⟩).SameFields (gasPayment 42000 ⟨1, 1, 27⟩) ∧
      (∀ crypto, verifySignature crypto (gasPayment 42000 ⟨1, 1, 27⟩) =
        verifySignature crypto (gasPayment 21000 ⟨1, 1, 27⟩)) ∧
      totalCost (gasPayment 21000 ⟨1, 1, 27⟩) = some 21001 ∧
      totalCost (gasPayment 42000 ⟨1, 1, 27⟩) = some 42001 := by
  refine ⟨rfl, fun hsame => ?_, fun _ => rfl, by decide, by decide⟩
  exact absurd hsame.gasLimit (by decide)

theorem asU64_ok {x : U256} {y : UInt64} (h : Executor.asU64 x = .ok y) :
    y.toNat = x.toNat := by
  obtain ⟨hlt, rfl⟩ := ite_ok_iff.mp h
  exact UInt64.toNat_ofNat_of_lt hlt

/-- What `normalize_transactions` makes of a user transaction. -/
structure Converts (ptx : PooledTransaction) (out : Executor.Transaction) : Prop where
  sender : out.sender = ptx.tx.sender
  receiver : out.receiver = ptx.tx.receiver
  amount : out.amount.toNat = ptx.tx.value.toNat
  nonce : out.nonce = ptx.tx.nonce
  signature : out.signature = ptx.tx.signature.toEth.toVec.toList
  gasPrice : out.gasPrice.toNat = ptx.tx.gasPrice.toNat
  gasLimit : out.gasLimit = ptx.tx.gasLimit
  timestamp : out.timestamp = ptx.tx.timestamp
  boostBid : out.boostBid.toNat = (ptx.tx.boostBid.getD 0).toNat

theorem converts_of_normalizeTransaction {ptx : PooledTransaction} {out : Executor.Transaction}
    (h : normalizeTransaction (Transaction.normal ptx).toSequencer = .ok out) :
    Converts ptx out := by
  obtain ⟨amount, hamount, h⟩ := bind_ok_iff.mp h
  obtain ⟨gasPrice, hgasPrice, h⟩ := bind_ok_iff.mp h
  have hvalue := u256ToU64Checked_ok hamount
  have hprice := u256ToU64Checked_ok hgasPrice
  cases hbid : ptx.tx.boostBid with
  | none =>
    simp only [hbid] at h
    cases h
    exact ⟨rfl, rfl, hvalue, rfl, rfl, hprice, rfl, rfl, by simp [hbid]⟩
  | some bid =>
    simp only [hbid] at h
    obtain ⟨boostBid, hconverted, h⟩ := bind_ok_iff.mp h
    cases h
    exact ⟨rfl, rfl, hvalue, rfl, rfl, hprice, rfl, rfl,
      by simpa [hbid] using asU64_ok hconverted⟩

theorem Converts.length_signature {ptx : PooledTransaction} {out : Executor.Transaction}
    (h : Converts ptx out) : out.signature.length = 65 := by
  rw [h.signature, Vector.length_toList]

theorem Converts.isEmpty_signature {ptx : PooledTransaction} {out : Executor.Transaction}
    (h : Converts ptx out) : out.signature.isEmpty = false := by
  rw [List.isEmpty_eq_false_iff, ← List.length_pos_iff, h.length_signature]
  decide

theorem Converts.txHashPreimage_eq {ptx : PooledTransaction} {out : Executor.Transaction}
    (h : Converts ptx out) : txHashPreimage out = ptx.tx.hashPreimage := by
  rw [UserTransaction.hashPreimage_eq, txHashPreimage, h.sender, h.receiver, h.nonce,
    h.timestamp, u64ToU256Be_eq h.amount, u64ToU256Be_eq h.gasPrice, u64ToU256Be_eq h.boostBid]

/-- The sequencer's hash, and both hashes of the executor, are of the same 152 bytes. -/
theorem preimages_agree {β : Type*} (text : JsonText β)
    (fromStr : List Char → Option EthSignature) (batch : Batch) (htext : batch.ReadsBack text)
    (parsed : List SequencerTransaction) (txs : List Executor.Transaction)
    (hparsed : parseBatchData text fromStr (executorBatchData text batch) = some parsed)
    (htxs : normalizeTransactions parsed = .ok txs)
    (i : ℕ) (ptx : PooledTransaction) (hi : batch.transactions[i]? = some (.normal ptx)) :
    ∃ received converted, parsed[i]? = some (.normal received) ∧ txs[i]? = some converted ∧
      received.hashPreimage = ptx.tx.hashPreimage ∧
      txHashPreimage converted = ptx.tx.hashPreimage ∧
      ptx.tx.hashPreimage.length = 152 := by
  rw [parseBatchData_executorBatchData htext] at hparsed
  obtain rfl := Option.some.inj hparsed
  have hreceived : (batch.transactions.map Transaction.toSequencer)[i]? =
      some (Transaction.normal ptx).toSequencer := by
    rw [List.getElem?_map, hi]
    rfl
  obtain ⟨converted, hconverted, hnormalized⟩ :=
    ((mapM_ok_iff _ _ _).mp htxs).exists_getElem? hreceived
  exact ⟨_, converted, hreceived, hconverted, rfl,
    (converts_of_normalizeTransaction hnormalized).txHashPreimage_eq,
    ptx.tx.length_hashPreimage⟩

theorem preimages_agree_boostedPayment :
    ∃ received converted,
      ((batchOf [.forced (etherDeposit 1), .normal (boostedPayment (some 5))]).transactions.map
        Transaction.toSequencer)[1]? = some (.normal received) ∧
      received.hashPreimage = (boostedPayment (some 5)).tx.hashPreimage ∧
      txHashPreimage converted = (boostedPayment (some 5)).tx.hashPreimage ∧
      (boostedPayment (some 5)).tx.hashPreimage.length = 152 := by
  obtain ⟨received, converted, hreceived, -, hsame, hsame', hlength⟩ :=
    preimages_agree plainText (fun _ => none)
      (batchOf [.forced (etherDeposit 1), .normal (boostedPayment (some 5))])
      (readsBack_plainText _) _ _ (parseBatchData_executorBatchData (readsBack_plainText _) _) rfl 1
      (boostedPayment (some 5)) rfl
  exact ⟨received, converted, hreceived, hsame, hsame', hlength⟩

/-! ## Recovery

Both sides recover the key with the same function of the hash, the two numbers and a parity.
They differ in how they come from `v` to the parity. -/

/-- The parity that the sequencer's library takes for `v`; `none` where it refuses `v`. -/
def recoveryParity (v : UInt64) : Option Bool :=
  if v = 0 ∨ v = 27 then some false
  else if v = 1 ∨ v = 28 then some true
  else if 35 ≤ v then some ((v.toNat - 1) % 2 == 1)
  else none

/-- The recovery id that the executor takes for `v`, of which it sees the low byte only. -/
def executorRecoveryId (v : UInt64) : Option UInt8 :=
  let b := UInt8.ofNat v.toNat
  recoveryIdFromByte (if b ≥ 27 then b - 27 else b)

def parityId (parity : Bool) : UInt8 :=
  if parity then 1 else 0

theorem executorRecoveryId_eq_some_iff (v : UInt64) (id : UInt8) :
    executorRecoveryId v = some id ↔
      id.toNat ≤ 3 ∧ (v.toNat % 256 = id.toNat ∨ v.toNat % 256 = id.toNat + 27) := by
  have hb : (UInt8.ofNat v.toNat).toNat = v.toNat % 256 := by simp
  have hlt := Nat.mod_lt v.toNat (by decide : 0 < 256)
  simp only [executorRecoveryId, recoveryIdFromByte]
  by_cases hge : UInt8.ofNat v.toNat ≥ 27
  · have hge' : 27 ≤ v.toNat % 256 := by rw [← hb]; exact UInt8.le_iff_toNat_le.mp hge
    have hsub : (UInt8.ofNat v.toNat - 27).toNat = v.toNat % 256 - 27 := by
      rw [UInt8.toNat_sub_of_le _ _ hge, hb]
      rfl
    rw [if_pos hge]
    simp only [UInt8.le_iff_toNat_le, hsub, Option.ite_none_right_eq_some, Option.some.injEq,
      ← UInt8.toNat_inj, UInt8.reduceToNat]
    omega
  · have hlt' : v.toNat % 256 < 27 := by
      rw [← hb]
      exact Nat.lt_of_not_le fun h => hge (UInt8.le_iff_toNat_le.mpr h)
    rw [if_neg hge]
    simp only [UInt8.le_iff_toNat_le, hb, Option.ite_none_right_eq_some, Option.some.injEq,
      ← UInt8.toNat_inj, UInt8.reduceToNat]
    omega

/-- Both sides come to the same parity for the small values of `v` that the library takes, and
for those whose low byte is 27 or 28. -/
theorem executorRecoveryId_eq_parityId_iff {v : UInt64} {parity : Bool}
    (h : recoveryParity v = some parity) :
    executorRecoveryId v = some (parityId parity) ↔
      v.toNat < 35 ∨ v.toNat % 256 = 27 ∨ v.toNat % 256 = 28 := by
  rw [executorRecoveryId_eq_some_iff]
  unfold recoveryParity at h
  simp only [← UInt64.toNat_inj, UInt64.le_iff_toNat_le, UInt64.reduceToNat] at h
  split at h
  · obtain rfl := Option.some.inj h
    simp only [parityId, Bool.false_eq_true, if_false, UInt8.reduceToNat]
    omega
  · split at h
    · obtain rfl := Option.some.inj h
      simp only [parityId, if_true, UInt8.reduceToNat]
      omega
    · split at h
      · obtain rfl := Option.some.inj h
        by_cases hodd : (v.toNat - 1) % 2 = 1
        · simp only [parityId, hodd, beq_self_eq_true, if_true, UInt8.reduceToNat]
          omega
        · simp only [parityId, beq_iff_eq, hodd, if_false, UInt8.reduceToNat]
          omega
      · cases h

def addressOfKey (keccak256 : List UInt8 → Hash) (pubkey : List UInt8) : Address :=
  ⟨((keccak256 (pubkey.drop 1)).toList.drop 12).toArray, by simp⟩

/-- Both sides have the same hash function and recover with `recover`. -/
structure RecoverAlike (crypto : Crypto) (rt : Executor.Runtime)
    (recover : Hash → U256 → U256 → Bool → Option (List UInt8)) : Prop where
  keccak256 : crypto.keccak256 = rt.keccak256
  sequencer : ∀ sig hash, crypto.recover sig hash =
    (recoveryParity sig.v).bind fun parity =>
      (recover hash sig.r sig.s parity).map (addressOfKey rt.keccak256)
  executor : ∀ hash r s parity,
    rt.recoverKey hash (r.toBigEndian ++ s.toBigEndian) (parityId parity) =
      recover hash r s parity

theorem verifySignature_ok_iff {crypto : Crypto} {rt : Executor.Runtime}
    {recover : Hash → U256 → U256 → Bool → Option (List UInt8)}
    (h : RecoverAlike crypto rt recover) (tx : UserTransaction) :
    verifySignature crypto tx = .ok () ↔
      ∃ parity, recoveryParity tx.signature.v = some parity ∧
        ∃ pubkey, recover (rt.keccak256 tx.hashPreimage) tx.signature.r tx.signature.s parity =
            some pubkey ∧
          addressOfKey rt.keccak256 pubkey = tx.sender := by
  rw [verifySignature, h.sequencer, h.keccak256]
  cases recoveryParity tx.signature.v with
  | none => simp
  | some parity =>
    cases hkey : recover (rt.keccak256 tx.hashPreimage) tx.signature.r tx.signature.s parity with
    | none => simp [hkey]
    | some pubkey =>
      by_cases hsender : addressOfKey rt.keccak256 pubkey = tx.sender <;>
        simp [hkey, hsender]

theorem toVec_toList (sig : EthSignature) :
    sig.toVec.toList =
      Bytes.be 32 sig.r.toNat ++ Bytes.be 32 sig.s.toNat ++ [UInt8.ofNat sig.v.toNat] :=
  rfl

theorem Converts.verifySignature_eq_true_iff {ptx : PooledTransaction}
    {out : Executor.Transaction} (h : Converts ptx out) (rt : Executor.Runtime) :
    Executor.verifySignature rt out = true ↔
      ∃ id, executorRecoveryId ptx.tx.signature.v = some id ∧
        ∃ pubkey, rt.recoverKey (rt.keccak256 ptx.tx.hashPreimage)
            (ptx.tx.signature.r.toBigEndian ++ ptx.tx.signature.s.toBigEndian) id =
            some pubkey ∧
          addressOfKey rt.keccak256 pubkey = ptx.tx.sender := by
  have hv : out.signature.getD 64 0 = UInt8.ofNat ptx.tx.signature.v.toNat := by
    rw [h.signature, toVec_toList]
    simp [List.getD_eq_getElem?_getD, Signature.toEth]
  have htake : out.signature.take 64 =
      ptx.tx.signature.r.toBigEndian ++ ptx.tx.signature.s.toBigEndian := by
    rw [h.signature, toVec_toList, List.take_left' (by simp)]
    rfl
  have hprehash : Executor.txHashPrehash rt out = rt.keccak256 ptx.tx.hashPreimage := by
    rw [Executor.txHashPrehash, h.txHashPreimage_eq]
  have hid : recoveryIdFromByte (if out.signature.getD 64 0 ≥ 27 then
      out.signature.getD 64 0 - 27 else out.signature.getD 64 0) =
      executorRecoveryId ptx.tx.signature.v := by
    rw [hv]
    rfl
  unfold Executor.verifySignature
  rw [h.isEmpty_signature, if_neg (by decide), if_neg (by simp [h.length_signature])]
  simp only [hid, htake, hprehash]
  cases executorRecoveryId ptx.tx.signature.v with
  | none => simp
  | some id =>
    cases hkey : rt.recoverKey (rt.keccak256 ptx.tx.hashPreimage)
        (ptx.tx.signature.r.toBigEndian ++ ptx.tx.signature.s.toBigEndian) id with
    | none => simp [hkey]
    | some pubkey =>
      simp only [hkey, Option.some.injEq, exists_eq_left', beq_iff_eq, h.sender]
      rw [← address_toList_inj, addressOfKey]
      rfl

theorem lt_of_recoveryParity_eq_none {v : UInt64} (h : recoveryParity v = none) :
    v.toNat < 35 := by
  by_contra hge
  have hle : (35 : UInt64) ≤ v := UInt64.le_iff_toNat_le.mpr (by simpa using hge)
  simp only [recoveryParity, hle, if_true] at h
  split at h
  · cases h
  · split at h <;> cases h

def hashOfSender (sender : Address) : Hash :=
  ⟨(List.replicate 12 0 ++ sender.toList).toArray, by simp⟩

def recoverOnly (parity : Bool) : Hash → U256 → U256 → Bool → Option (List UInt8) :=
  fun _ _ _ p => if p = parity then some [] else none

def cryptoOnly (sender : Address) (parity : Bool) : Crypto where
  keccak256 _ := hashOfSender sender
  recover sig hash := (recoveryParity sig.v).bind fun p =>
    (recoverOnly parity hash sig.r sig.s p).map (addressOfKey fun _ => hashOfSender sender)

def runtimeOnly (sender : Address) (parity : Bool) : Executor.Runtime where
  sha256 _ := hashOfSender sender
  keccak256 _ := hashOfSender sender
  recoverKey _ _ id := if id = parityId parity then some [] else none
  nowUnixSecs := 0
  allowUnsignedUserTxs := none
  executorBuildId := none
  risc0GuestMethodId := none
  risc0HostBin := none
  risc0GuestElf := none

theorem parityId_inj {p q : Bool} : parityId p = parityId q ↔ p = q := by
  cases p <;> cases q <;> decide

theorem recoverAlike_only (sender : Address) (parity : Bool) :
    RecoverAlike (cryptoOnly sender parity) (runtimeOnly sender parity) (recoverOnly parity) where
  keccak256 := rfl
  sequencer _ _ := rfl
  executor _ _ _ p := by simp only [runtimeOnly, recoverOnly, parityId_inj]

theorem addressOfKey_hashOfSender (sender : Address) (pubkey : List UInt8) :
    addressOfKey (fun _ => hashOfSender sender) pubkey = sender := by
  rw [← address_toList_inj]
  exact List.drop_left' (by simp)

/-- Whatever the function is that both sides recover with, the executor accepts what the
sequencer accepted if and only if `v` is below 35 or its low byte is 27 or 28. -/
theorem verifySignature_agree_iff (ptx : PooledTransaction) (out : Executor.Transaction)
    (h : normalizeTransaction (Transaction.normal ptx).toSequencer = .ok out) :
    (∀ crypto rt recover, RecoverAlike crypto rt recover →
        verifySignature crypto ptx.tx = .ok () → Executor.verifySignature rt out = true) ↔
      ptx.tx.signature.v.toNat < 35 ∨ ptx.tx.signature.v.toNat % 256 = 27 ∨
        ptx.tx.signature.v.toNat % 256 = 28 := by
  have hconverts := converts_of_normalizeTransaction h
  constructor
  · intro hagree
    cases hparity : recoveryParity ptx.tx.signature.v with
    | none => exact .inl (lt_of_recoveryParity_eq_none hparity)
    | some parity =>
      have halike := recoverAlike_only ptx.tx.sender parity
      have haccepted : verifySignature (cryptoOnly ptx.tx.sender parity) ptx.tx = .ok () :=
        (verifySignature_ok_iff halike ptx.tx).mpr
          ⟨parity, hparity, [], if_pos rfl, addressOfKey_hashOfSender _ _⟩
      obtain ⟨id, hid, pubkey, hkey, -⟩ :=
        (hconverts.verifySignature_eq_true_iff _).mp (hagree _ _ _ halike haccepted)
      have hsame : id = parityId parity := by
        by_contra hne
        simp [runtimeOnly, hne] at hkey
      exact (executorRecoveryId_eq_parityId_iff hparity).mp (hsame ▸ hid)
  · intro hv crypto rt recover halike haccepted
    obtain ⟨parity, hparity, pubkey, hkey, hsender⟩ :=
      (verifySignature_ok_iff halike ptx.tx).mp haccepted
    exact (hconverts.verifySignature_eq_true_iff rt).mpr
      ⟨parityId parity, (executorRecoveryId_eq_parityId_iff hparity).mpr hv, pubkey,
        (halike.executor _ _ _ _).trans hkey, hsender⟩

def paymentWithV (v : UInt64) : PooledTransaction :=
  ⟨{ (boostedPayment none).tx with signature := ⟨1, 1, v⟩ }, 0, 0, 0⟩

def convertedWithV (v : UInt64) : Executor.Transaction :=
  ⟨Vector.replicate 20 7, Vector.replicate 20 8, 1, 0,
    (EthSignature.toVec ⟨1, 1, v⟩).toList, 0, 21000, 0, 0⟩

theorem verifySignature_agree_twentySeven :
    Executor.verifySignature (runtimeOnly (Vector.replicate 20 7) false) (convertedWithV 27) =
      true :=
  (verifySignature_agree_iff (paymentWithV 27) (convertedWithV 27) rfl).mpr (.inl (by decide))
    _ _ _ (recoverAlike_only (Vector.replicate 20 7) false) (by decide)

/-- With chain id 1, `v` is 37 for the even parity. The sequencer takes it and the executor makes
the recovery id 10 of it. -/
theorem verifySignature_disagree_thirtySeven :
    RecoverAlike (cryptoOnly (Vector.replicate 20 7) false)
        (runtimeOnly (Vector.replicate 20 7) false) (recoverOnly false) ∧
      verifySignature (cryptoOnly (Vector.replicate 20 7) false) (paymentWithV 37).tx = .ok () ∧
      normalizeTransaction (Transaction.normal (paymentWithV 37)).toSequencer =
        .ok (convertedWithV 37) ∧
      Executor.verifySignature (runtimeOnly (Vector.replicate 20 7) false) (convertedWithV 37) =
        false :=
  ⟨recoverAlike_only _ _, by decide, rfl, by decide⟩

end RollupX.Sequencer
