import RollupX.Model.Executor.Types

/-! Data types of the sequencer (`sequencer/src/types.rs`). As in the executor's types, the
fields `from` and `to` are called `sender` and `receiver`. -/

namespace RollupX.Sequencer

open Executor (Hash Address)

/-! ## 256-bit integers -/

abbrev U256 := BitVec 256

namespace U256

def ofU64 (x : UInt64) : U256 :=
  BitVec.ofNat 256 x.toNat

/-- The operator `*`, which panics on overflow. -/
def mul (x y : U256) : Option U256 :=
  if x.toNat * y.toNat < 2 ^ 256 then some (x * y) else none

/-- The operator `+`, which panics on overflow. -/
def add (x y : U256) : Option U256 :=
  if x.toNat + y.toNat < 2 ^ 256 then some (x + y) else none

def saturatingSub (x y : U256) : U256 :=
  if y.toNat ≤ x.toNat then x - y else 0

def saturatingAdd (x y : U256) : U256 :=
  if x.toNat + y.toNat < 2 ^ 256 then x + y else BitVec.ofNat 256 (2 ^ 256 - 1)

/-- `as_u128`, which panics on what does not fit. -/
def asU128 (x : U256) : Option ℕ :=
  if x.toNat < 2 ^ 128 then some x.toNat else none

def toBigEndian (x : U256) : List UInt8 :=
  Bytes.be 32 x.toNat

@[simp] theorem toNat_ofU64 (x : UInt64) : (ofU64 x).toNat = x.toNat := by
  have hlt := x.toNat_lt
  rw [ofU64, BitVec.toNat_ofNat]
  omega

theorem toNat_mul_some {x y z : U256} (h : mul x y = some z) :
    z.toNat = x.toNat * y.toNat := by
  unfold mul at h
  split at h
  · rename_i hlt
    rw [← Option.some.inj h, BitVec.toNat_mul, Nat.mod_eq_of_lt hlt]
  · cases h

theorem toNat_add_some {x y z : U256} (h : add x y = some z) :
    z.toNat = x.toNat + y.toNat := by
  unfold add at h
  split at h
  · rename_i hlt
    rw [← Option.some.inj h, BitVec.toNat_add, Nat.mod_eq_of_lt hlt]
  · cases h

theorem toNat_saturatingSub (x y : U256) :
    (saturatingSub x y).toNat = x.toNat - y.toNat := by
  unfold saturatingSub
  split
  · rename_i hle
    rw [BitVec.toNat_sub_of_le (BitVec.le_def.mpr hle)]
  · simp
    omega

theorem toNat_saturatingAdd (x y : U256) :
    (saturatingAdd x y).toNat = min (x.toNat + y.toNat) (2 ^ 256 - 1) := by
  unfold saturatingAdd
  split
  · rename_i hlt
    rw [BitVec.toNat_add, Nat.mod_eq_of_lt hlt]
    omega
  · rw [BitVec.toNat_ofNat]
    omega

end U256

/-! ## Transactions and accounts -/

structure Signature where
  r : U256
  s : U256
  v : UInt64
  deriving DecidableEq, Repr

structure UserTransaction where
  sender : Address
  receiver : Address
  value : U256
  nonce : UInt64
  gasPrice : U256
  gasLimit : UInt64
  signature : Signature
  timestamp : UInt64
  boostBid : Option U256
  deriving DecidableEq, Repr

def UserTransaction.hashPreimage (tx : UserTransaction) : List UInt8 :=
  tx.sender.toList ++ tx.receiver.toList ++ tx.value.toBigEndian ++ Bytes.be 8 tx.nonce.toNat ++
    tx.gasPrice.toBigEndian ++ Bytes.be 8 tx.timestamp.toNat ++
    (match tx.boostBid with
      | some bid => bid.toBigEndian
      | none => List.replicate 32 0)

inductive ForcedEventType where
  | deposit
  | forcedExit
  deriving DecidableEq, Repr

structure ForcedTransaction where
  txHash : Hash
  sender : Address
  receiver : Address
  value : U256
  nonce : UInt64
  gasLimit : UInt64
  l1TxHash : Hash
  l1BlockNumber : UInt64
  eventType : ForcedEventType
  timestamp : UInt64
  deriving DecidableEq, Repr

structure PooledTransaction where
  tx : UserTransaction
  arrivedAt : UInt64
  poolEntryAt : UInt64
  validationLatencyMs : UInt64
  deriving DecidableEq, Repr

inductive Transaction where
  | normal (tx : PooledTransaction)
  | forced (tx : ForcedTransaction)
  deriving DecidableEq, Repr

structure Batch where
  batchId : UInt64
  transactions : List Transaction
  prevStateRoot : Hash
  timestamp : UInt64
  deriving DecidableEq, Repr

def digits (n : ℕ) : ℕ :=
  (Nat.toDigits 10 n).length

def PooledTransaction.estimatedEncodedBytes (p : PooledTransaction) : ℕ :=
  20 + 20 + 32 + 8 + 32 + 8 + 65 + digits p.tx.value.toNat + digits p.tx.gasPrice.toNat +
    digits p.tx.nonce.toNat + digits p.tx.gasLimit.toNat + digits p.tx.timestamp.toNat +
    (match p.tx.boostBid with
      | some bid => digits bid.toNat
      | none => 4)

def Transaction.gasLimit : Transaction → UInt64
  | .normal p => p.tx.gasLimit
  | .forced tx => tx.gasLimit

def Transaction.estimatedEncodedBytes : Transaction → ℕ
  | .normal p => p.estimatedEncodedBytes
  | .forced tx =>
    20 + 20 + 32 + 8 + 32 + 8 + 8 + digits tx.value.toNat + digits tx.nonce.toNat +
      digits tx.gasLimit.toNat + digits tx.l1BlockNumber.toNat + digits tx.timestamp.toNat

structure AccountState where
  address : Address
  balance : U256
  nonce : UInt64
  deriving DecidableEq, Repr

inductive ValidationError where
  | invalidSignature
  | invalidNonce (expected got : UInt64)
  | insufficientBalance (required available : U256)
  deriving DecidableEq, Repr

def ValidationError.message : ValidationError → String
  | .invalidSignature => "Invalid transaction signature"
  | .invalidNonce expected got =>
    "Invalid nonce: expected " ++ toString expected.toNat ++ ", got " ++ toString got.toNat
  | .insufficientBalance required available =>
    "Insufficient balance: required " ++ toString required.toNat ++ ", available " ++
      toString available.toNat

end RollupX.Sequencer
