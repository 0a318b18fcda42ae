import RollupX.Library.Json
import RollupX.Model.Executor.Types

/-! Reading the data of a batch (`executor/src/types.rs`): what `serde` derives for the
sequencer's transactions. Numbers of 256 bits and addresses are hexadecimal strings, as the
`serde` implementations of `ethers` have them. A text that cannot be read is an error without
its message, which is made by `serde`. -/

namespace RollupX.Executor

/-! ## Fields -/

def u64OfJson (v : Json) : Option UInt64 := do
  let n ← v.asNumber
  if n < 2 ^ 64 then some (UInt64.ofNat n) else none

def u256OfJson (v : Json) : Option (BitVec 256) := do
  let s ← v.asString
  let n ← Hex.readQuantity 64 s
  some (BitVec.ofNat 256 n)

def addressOfJson (v : Json) : Option Address := do
  let s ← v.asString
  let bytes ← Hex.readBytes 20 s
  if h : bytes.length = 20 then some ⟨bytes.toArray, Address.size_toArray h⟩ else none

/-- `Option<U256>` with `#[serde(default)]`. -/
def optionU256OfField (v : Option Json) : Option (Option (BitVec 256)) :=
  match v with
  | none => some none
  | some .null => some none
  | some v => (u256OfJson v).map some

/-! ## Signatures -/

/-- The signature of `ethers`. -/
structure EthSignature where
  r : BitVec 256
  s : BitVec 256
  v : UInt64
  deriving DecidableEq, Repr

def EthSignature.toVec (sig : EthSignature) : Vector UInt8 65 :=
  ⟨(Bytes.be 32 sig.r.toNat ++ Bytes.be 32 sig.s.toNat ++ [UInt8.ofNat sig.v.toNat]).toArray,
    by simp⟩

def EthSignature.ofJson (j : Json) : Option EthSignature := do
  let r ← (j.field "r").bind u256OfJson
  let s ← (j.field "s").bind u256OfJson
  let v ← (j.field "v").bind u64OfJson
  some ⟨r, s, v⟩

/-- A string is read by `Signature::from_str`, which is not part of this repository; any
other value as the structure. -/
def deserializeSignature (fromStr : List Char → Option EthSignature) :
    Json → Option EthSignature
  | .string s => fromStr s
  | other => EthSignature.ofJson other

/-! ## Transactions -/

def SequencerUserTransaction.ofJson (fromStr : List Char → Option EthSignature) (j : Json) :
    Option SequencerUserTransaction := do
  let sender ← (j.field "from").bind addressOfJson
  let receiver ← (j.field "to").bind addressOfJson
  let value ← (j.field "value").bind u256OfJson
  let nonce ← (j.field "nonce").bind u64OfJson
  let gasPrice ← (j.field "gas_price").bind u256OfJson
  let gasLimit ← (j.field "gas_limit").bind u64OfJson
  let signature ← (j.field "signature").bind (deserializeSignature fromStr)
  let timestamp ← (j.field "timestamp").bind u64OfJson
  let boostBid ← optionU256OfField (j.field "boost_bid")
  some ⟨sender, receiver, value, nonce, gasPrice, gasLimit, signature.toVec, timestamp, boostBid⟩

def SequencerForcedTransaction.ofJson (j : Json) : Option SequencerForcedTransaction := do
  let sender ← (j.field "from").bind addressOfJson
  let receiver ← (j.field "to").bind addressOfJson
  let value ← (j.field "value").bind u256OfJson
  let nonce ← (j.field "nonce").bind u64OfJson
  let gasLimit ← (j.field "gas_limit").bind u64OfJson
  let timestamp ← (j.field "timestamp").bind u64OfJson
  some ⟨sender, receiver, value, nonce, gasLimit, timestamp⟩

/-- An object with the name of the variant as its only field. -/
def SequencerTransaction.ofJson (fromStr : List Char → Option EthSignature) :
    Json → Option SequencerTransaction
  | .object [("Normal", j)] => (SequencerUserTransaction.ofJson fromStr j).map .normal
  | .object [("Forced", j)] => (SequencerForcedTransaction.ofJson j).map .forced
  | _ => none

def parseBatchData {β : Type*} (text : JsonText β)
    (fromStr : List Char → Option EthSignature) (data : β) : Option (List SequencerTransaction) :=
  match text.read data with
  | .error _ => none
  | .ok v => do
      let items ← v.asArray
      items.mapM (SequencerTransaction.ofJson fromStr)

end RollupX.Executor
