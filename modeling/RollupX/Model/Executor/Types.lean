import RollupX.Library.Bytes

/-! Data types of the executor, its transaction hash, and the batch commitments
(`executor/src/types.rs`, and the hash helpers of `executor/src/tx_engine.rs`).
The fields `from` and `to` of a transaction are called `sender` and `receiver`, words the
source uses for the two accounts. Timings and other metrics are left out. -/

namespace RollupX.Executor

abbrev Hash := Vector UInt8 32

abbrev Address := Vector UInt8 20

theorem Address.size_toArray {bytes : List UInt8} (h : bytes.length = 20) :
    bytes.toArray.size = 20 := by
  rw [List.size_toArray, h]

structure Account where
  balance : UInt64
  nonce : UInt64
  deriving DecidableEq, Repr

instance : Inhabited Account := ⟨⟨0, 0⟩⟩

structure Transaction where
  sender : Address
  receiver : Address
  amount : UInt64
  nonce : UInt64
  signature : List UInt8
  gasPrice : UInt64
  gasLimit : UInt64
  timestamp : UInt64
  boostBid : UInt64
  deriving DecidableEq, Repr

structure WitnessPathElement where
  siblingHash : Hash
  siblingIsLeft : Bool
  deriving DecidableEq, Repr

structure StateDiff where
  account : Address
  oldBalance : UInt64
  newBalance : UInt64
  oldNonce : UInt64
  newNonce : UInt64
  merkleProof : List Hash
  witnessPath : List WitnessPathElement
  leafEncoding : String
  deriving DecidableEq, Repr

structure AccountSnapshot where
  address : Address
  balance : UInt64
  nonce : UInt64
  deriving DecidableEq, Repr

structure TxExecutionOutcome where
  txHash : Hash
  included : Bool
  rejectionReason : Option String
  senderPre : AccountSnapshot
  senderPost : AccountSnapshot
  receiverPre : AccountSnapshot
  receiverPost : AccountSnapshot
  deriving DecidableEq, Repr

structure TracePublicInputs where
  initialRoot : Hash
  finalRoot : Hash
  txCommitment : Hash
  stateDiffCommitment : Hash
  deriving DecidableEq, Repr

structure ProverContext where
  guestMethodId : String
  expectedJournalHash : Hash
  backendConfigFingerprint : Hash
  deriving DecidableEq, Repr

structure ExecutionTraceV1 where
  traceId : String
  schemaVersion : ℕ
  batchId : String
  createdAt : UInt64
  executorBuildId : String
  publicInputs : TracePublicInputs
  executedTransactions : List Transaction
  txOutcomes : List TxExecutionOutcome
  stateDiffs : List StateDiff
  proverContext : ProverContext
  deriving DecidableEq, Repr

inductive ExecutorError where
  | invalidPayload (message : String)
  | state (message : String)
  deriving DecidableEq, Repr

def ExecutorError.message : ExecutorError → String
  | .invalidPayload message => "invalid payload: " ++ message
  | .state message => "state error: " ++ message

/-- What the executor takes from outside its own code: the hash functions, public key
recovery, the clock, and environment variables. `recoverKey prehash rs v` is the
uncompressed public key that `VerifyingKey::recover_from_prehash` gives for the 64
bytes `rs`, or `none` when those are no signature or no key is recovered. -/
structure Runtime where
  sha256 : List UInt8 → Hash
  keccak256 : List UInt8 → Hash
  recoverKey : Hash → List UInt8 → UInt8 → Option (List UInt8)
  nowUnixSecs : UInt64
  allowUnsignedUserTxs : Option String
  executorBuildId : Option String
  risc0GuestMethodId : Option String
  risc0HostBin : Option String
  risc0GuestElf : Option String

/-- Rust's `eq_ignore_ascii_case`. -/
def eqIgnoreAsciiCase (s t : String) : Bool :=
  s.toList.map Char.toLower == t.toList.map Char.toLower

def utf8 (s : String) : List UInt8 :=
  s.toUTF8.toList

def hexDigit (n : ℕ) : Char :=
  if n < 10 then Char.ofNat (48 + n) else Char.ofNat (87 + n)

def hexEncode (bytes : List UInt8) : String :=
  String.ofList (bytes.flatMap fun b => [hexDigit (b.toNat / 16), hexDigit (b.toNat % 16)])

/-! ## Hashes of transactions and traces -/

def u64ToU256Be (v : UInt64) : List UInt8 :=
  List.replicate 24 0 ++ Bytes.be 8 v.toNat

def txHashPreimage (tx : Transaction) : List UInt8 :=
  tx.sender.toList ++ tx.receiver.toList ++ u64ToU256Be tx.amount ++ Bytes.be 8 tx.nonce.toNat ++
    u64ToU256Be tx.gasPrice ++ Bytes.be 8 tx.timestamp.toNat ++ u64ToU256Be tx.boostBid

def txHashPrehash (rt : Runtime) (tx : Transaction) : Hash :=
  rt.keccak256 (txHashPreimage tx)

/-- The bytes that `fold_diff` feeds to its hasher after the previous root. -/
def foldDiffBytes (account : Address) (oldBalance newBalance oldNonce newNonce : UInt64) :
    List UInt8 :=
  account.toList ++ Bytes.be 8 oldBalance.toNat ++ Bytes.be 8 newBalance.toNat ++
    Bytes.be 8 oldNonce.toNat ++ Bytes.be 8 newNonce.toNat

def foldDiff (sha256 : List UInt8 → Hash) (prevRoot : Hash) (diff : StateDiff) : Hash :=
  sha256 (prevRoot.toList ++
    foldDiffBytes diff.account diff.oldBalance diff.newBalance diff.oldNonce diff.newNonce)

def buildTraceId (rt : Runtime) (batchId : String) (initialRoot finalRoot : Hash) : String :=
  hexEncode (rt.sha256 (utf8 batchId ++ initialRoot.toList ++ finalRoot.toList ++
    Bytes.be 8 rt.nowUnixSecs.toNat)).toList

def expectedJournalHash (rt : Runtime) (initialRoot finalRoot : Hash) : Hash :=
  rt.sha256 (initialRoot.toList ++ finalRoot.toList)

def backendConfigFingerprint (rt : Runtime) : Hash :=
  rt.sha256 (utf8 (rt.risc0HostBin.getD "") ++ utf8 (rt.risc0GuestElf.getD ""))

/-! ## Commitments

`bincode` writes integers little-endian at full width, lengths as `u64`, arrays of
bytes as they are, and an option as a tag byte followed by its value. -/

namespace Bincode

def u64 (v : UInt64) : List UInt8 :=
  Bytes.le 8 v.toNat

def bool (b : Bool) : List UInt8 :=
  [if b then 1 else 0]

def seq {α : Type*} (enc : α → List UInt8) (xs : List α) : List UInt8 :=
  Bytes.le 8 xs.length ++ xs.flatMap enc

def string (s : String) : List UInt8 :=
  seq (fun b => [b]) (utf8 s)

def option {α : Type*} (enc : α → List UInt8) : Option α → List UInt8
  | none => [0]
  | some x => 1 :: enc x

def account (a : Account) : List UInt8 :=
  u64 a.balance ++ u64 a.nonce

/-- Reading an account back. Trailing bytes are allowed. -/
def readAccount (bytes : List UInt8) : Option Account :=
  if 16 ≤ bytes.length then
    some ⟨UInt64.ofNat (Bytes.ofLe (bytes.take 8)),
      UInt64.ofNat (Bytes.ofLe ((bytes.drop 8).take 8))⟩
  else none

def accountSnapshot (a : AccountSnapshot) : List UInt8 :=
  a.address.toList ++ u64 a.balance ++ u64 a.nonce

def outcome (o : TxExecutionOutcome) : List UInt8 :=
  o.txHash.toList ++ bool o.included ++ option string o.rejectionReason ++
    accountSnapshot o.senderPre ++ accountSnapshot o.senderPost ++
    accountSnapshot o.receiverPre ++ accountSnapshot o.receiverPost

def witness (w : WitnessPathElement) : List UInt8 :=
  w.siblingHash.toList ++ bool w.siblingIsLeft

def stateDiff (d : StateDiff) : List UInt8 :=
  d.account.toList ++ u64 d.oldBalance ++ u64 d.newBalance ++ u64 d.oldNonce ++
    u64 d.newNonce ++ seq Vector.toList d.merkleProof ++ seq witness d.witnessPath ++
    string d.leafEncoding

theorem readAccount_account (a : Account) : readAccount (account a) = some a := by
  have hbal : Bytes.ofLe (Bytes.le 8 a.balance.toNat) = a.balance.toNat :=
    Bytes.ofLe_le_of_lt a.balance.toNat_lt
  have hnonce : Bytes.ofLe (Bytes.le 8 a.nonce.toNat) = a.nonce.toNat :=
    Bytes.ofLe_le_of_lt a.nonce.toNat_lt
  have htake : (account a).take 8 = u64 a.balance := by
    simp [account, u64]
  have hdrop : ((account a).drop 8).take 8 = u64 a.nonce := by
    simp [account, u64, List.take_of_length_le]
  have hlen : (account a).length = 16 := by simp [account, u64]
  rw [readAccount, hlen, if_pos le_rfl, htake, hdrop]
  simp [u64, hbal, hnonce]

end Bincode

def txCommitment (rt : Runtime) (outcomes : List TxExecutionOutcome) : Hash :=
  rt.sha256 (Bincode.seq Bincode.outcome outcomes)

def stateDiffCommitment (rt : Runtime) (diffs : List StateDiff) : Hash :=
  rt.sha256 (Bincode.seq Bincode.stateDiff diffs)

/-! ## Transactions of the sequencer -/

/-- `signature` is the 65 bytes of `EthSignature::to_vec`. -/
structure SequencerUserTransaction where
  sender : Address
  receiver : Address
  value : BitVec 256
  nonce : UInt64
  gasPrice : BitVec 256
  gasLimit : UInt64
  signature : Vector UInt8 65
  timestamp : UInt64
  boostBid : Option (BitVec 256)
  deriving DecidableEq, Repr

def SequencerUserTransaction.hashPreimage (tx : SequencerUserTransaction) : List UInt8 :=
  tx.sender.toList ++ tx.receiver.toList ++ Bytes.be 32 tx.value.toNat ++
    Bytes.be 8 tx.nonce.toNat ++ Bytes.be 32 tx.gasPrice.toNat ++
    Bytes.be 8 tx.timestamp.toNat ++
    (match tx.boostBid with
      | some bid => Bytes.be 32 bid.toNat
      | none => List.replicate 32 0)

structure SequencerForcedTransaction where
  sender : Address
  receiver : Address
  value : BitVec 256
  nonce : UInt64
  gasLimit : UInt64
  timestamp : UInt64
  deriving DecidableEq, Repr

inductive SequencerTransaction where
  | normal (tx : SequencerUserTransaction)
  | forced (tx : SequencerForcedTransaction)
  deriving DecidableEq, Repr

/-- How `normalize_transactions` ends without a result. -/
inductive NormalizeFailure where
  | error (e : ExecutorError)
  | panic
  deriving DecidableEq, Repr

def u256ToU64Checked (value : BitVec 256) (label : String) : Except NormalizeFailure UInt64 :=
  if value.toNat < 2 ^ 64 then .ok (UInt64.ofNat value.toNat)
  else .error (.error (.invalidPayload (label ++ " exceeds u64")))

theorem u256ToU64Checked_ok {value : BitVec 256} {label : String} {x : UInt64}
    (h : u256ToU64Checked value label = .ok x) : x.toNat = value.toNat := by
  unfold u256ToU64Checked at h
  split at h
  · rename_i hlt
    cases h
    exact UInt64.toNat_ofNat_of_lt hlt
  · cases h

/-- `U256::as_u64`, which panics where the value does not fit. -/
def asU64 (value : BitVec 256) : Except NormalizeFailure UInt64 :=
  if value.toNat < 2 ^ 64 then .ok (UInt64.ofNat value.toNat) else .error .panic

def normalizeTransaction : SequencerTransaction → Except NormalizeFailure Transaction
  | .normal n => do
      let amount ← u256ToU64Checked n.value "value"
      let gasPrice ← u256ToU64Checked n.gasPrice "gas_price"
      let boostBid ← match n.boostBid with
        | some v => asU64 v
        | none => pure 0
      pure
        { sender := n.sender
          receiver := n.receiver
          amount := amount
          nonce := n.nonce
          signature := n.signature.toList
          gasPrice := gasPrice
          gasLimit := n.gasLimit
          timestamp := n.timestamp
          boostBid := boostBid }
  | .forced f => do
      let amount ← u256ToU64Checked f.value "value"
      pure
        { sender := f.sender
          receiver := f.receiver
          amount := amount
          nonce := f.nonce
          signature := []
          gasPrice := 0
          gasLimit := f.gasLimit
          timestamp := f.timestamp
          boostBid := 0 }

def normalizeTransactions (input : List SequencerTransaction) :
    Except NormalizeFailure (List Transaction) :=
  input.mapM normalizeTransaction

end RollupX.Executor
