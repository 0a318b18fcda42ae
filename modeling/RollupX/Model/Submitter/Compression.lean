import RollupX.Library.Packing
import RollupX.Model.Submitter.Types

/-! Bit packing of the transactions of a batch (`submitter/src/infrastructure/compression.rs`).
The ratio of the sizes, a floating point measurement, is left out. -/

namespace RollupX.Submitter

/-- A JSON value of `serde_json`; of a number only what `as_u64` gives is kept. -/
inductive Value where
  | null
  | bool (b : Bool)
  | number (asU64 : Option UInt64)
  | string (s : Text)
  | array (items : List Value)
  | object (fields : List (String × Value))

namespace Value

def get (v : Value) (key : String) : Option Value :=
  match v with
  | .object fields => fields.lookup key
  | _ => none

/-- `v[key]`, which is null where there is no such field. -/
def index (v : Value) (key : String) : Value :=
  (v.get key).getD .null

def asU64 : Value → Option UInt64
  | .number n => n
  | _ => none

/-- `as_u64().unwrap_or(0) as u8`. -/
def byte (v : Value) : UInt8 :=
  (v.asU64.getD 0).toUInt8

end Value

/-! ## Transactions of the executor

The values that `serde_json` reads from a list of executor transactions: an array of bytes is
an array of numbers, and the names of the fields are those of the structure. -/

namespace Value

def ofBytes (bytes : List UInt8) : Value :=
  .array (bytes.map fun b => .number (some b.toUInt64))

def ofTransaction (tx : Executor.Transaction) : Value :=
  .object [("from", ofBytes tx.sender.toList), ("to", ofBytes tx.receiver.toList),
    ("amount", .number (some tx.amount)), ("nonce", .number (some tx.nonce)),
    ("signature", ofBytes tx.signature), ("gas_price", .number (some tx.gasPrice)),
    ("gas_limit", .number (some tx.gasLimit)), ("timestamp", .number (some tx.timestamp)),
    ("boost_bid", .number (some tx.boostBid))]

end Value

/-! ## Packing -/

def zeros (n : ℕ) : List UInt8 :=
  List.replicate n 0

def parseAddress : Value → List UInt8
  | .string s =>
    match decodeHexText s with
    | .ok bytes => if bytes.length = 20 then bytes else zeros 20
    | .error _ => zeros 20
  | .array items =>
    let bytes := (items.take 20).map Value.byte
    bytes ++ zeros (20 - bytes.length)
  | _ => zeros 20

/-- `none` where the subtraction `32 - arr.len()` panics. -/
def parseU256 : Value → Option (List UInt8)
  | .array items =>
    if items.length ≤ 32 then some (zeros (32 - items.length) ++ items.map Value.byte)
    else none
  | _ => some (zeros 32)

/-- The bytes without leading zeros, after their number. -/
def varInt (bytes : List UInt8) : List UInt8 :=
  let trimmed := bytes.dropWhile (· == 0)
  UInt8.ofNat trimmed.length :: trimmed

def packTransfer (tx : Value) : Option (List UInt8) := do
  let sender := parseAddress (tx.index "from")
  let receiver := parseAddress (tx.index "to")
  let value ← parseU256 (tx.index "value")
  let nonce := ((tx.index "nonce").asU64).getD 0
  pure (sender ++ receiver ++ varInt value ++ varInt (Bytes.be 8 nonce.toNat) ++ zeros 65)

/-- The object under `Transfer` or `ContractCall`, or the value itself. -/
def transferOf (tx : Value) : Value :=
  match tx.get "Transfer" with
  | some transfer => transfer
  | none =>
    match tx.get "ContractCall" with
    | some call => call
    | none => tx

def bitPackTransactions (txs : List Value) : Option (List UInt8) := do
  let packed ← txs.mapM fun tx => packTransfer (transferOf tx)
  pure (1 :: packed.flatten)

def calculateCalldataGas (data : List UInt8) : ℕ :=
  (data.map fun b => if b = 0 then 4 else 16).sum

structure CompressionMetrics where
  originalSize : ℕ
  compressedSize : ℕ
  gasCostCalldata : ℕ
  gasCostBlob : ℕ
  gasSaved : ℕ
  deriving DecidableEq, Repr

/-- `parseTransactions` is `serde_json::from_slice::<Vec<Value>>`. Data that is no JSON array
stays as it is. -/
def compress (parseTransactions : List UInt8 → Option (List Value)) (data : List UInt8) :
    Option (List UInt8 × CompressionMetrics) := do
  let compressedData ← match parseTransactions data with
    | some txs => bitPackTransactions txs
    | none => some data
  let gasOriginal := calculateCalldataGas data
  pure (compressedData, {
    originalSize := data.length
    compressedSize := compressedData.length
    gasCostCalldata := gasOriginal
    gasCostBlob := compressedData.length
    gasSaved := gasOriginal - calculateCalldataGas compressedData })

/-! ## Overflow checks

A debug build checks the additions of `calculate_calldata_gas`, which wrap in a release build. The
subtraction of `parse_u256` ends the call in both, in a release build at the index after it. -/

def checkedCalldataGas (data : List UInt8) : Option ℕ :=
  data.foldlM (fun gas b => u64 (gas + if b = 0 then 4 else 16)) 0

/-- `compress` of a debug build. -/
def compressChecked (parseTransactions : List UInt8 → Option (List Value)) (data : List UInt8) :
    Option (List UInt8 × CompressionMetrics) := do
  let (compressedData, metrics) ← compress parseTransactions data
  let _ ← checkedCalldataGas data
  let _ ← checkedCalldataGas compressedData
  pure (compressedData, metrics)

/-! ## The decoder of the boundary tests

`test_decompress` in `submitter/tests/executor_submitter_boundary_tests.rs`. What is left of the
input stands for `data[pos..]`, and `none` for a panic. -/

def Value.ofTransfer (sender receiver value : List UInt8) (nonce : UInt64)
    (signature : List UInt8) : Value :=
  .object [("Transfer", .object [("from", .string (hexText sender)),
    ("to", .string (hexText receiver)), ("value", .ofBytes value),
    ("nonce", .number (some nonce)), ("signature", .ofBytes signature)])]

/-- A number and as many bytes, which are put at the end of an array of `width` bytes, and what
is left; `some none` at the two early exits. -/
def takeCounted (width : ℕ) : List UInt8 → Option (Option (List UInt8 × List UInt8))
  | [] => some none
  | len :: rest =>
    if rest.length < len.toNat then some none
    else if width < len.toNat then none
    else some (some (zeros (width - len.toNat) ++ rest.take len.toNat, rest.drop len.toNat))

def unpackTransfer (input : List UInt8) : Option (Packing.Round Value UInt8) :=
  if input.length < 40 then some .exit
  else
    match takeCounted 32 (input.drop 40) with
    | none => none
    | some none => some .exit
    | some (some (value, rest)) =>
      match takeCounted 8 rest with
      | none => none
      | some none => some .exit
      | some (some (nonceBytes, rest)) =>
        if rest.length < 65 then some .exit
        else
          some (.next
            (.ofTransfer (input.take 20) ((input.drop 20).take 20) value
              (UInt64.ofNat (Bytes.ofBe nonceBytes)) (rest.take 65))
            (rest.drop 65))

theorem takeCounted_shorter {width : ℕ} {input bytes rest : List UInt8}
    (h : takeCounted width input = some (some (bytes, rest))) : rest.length < input.length := by
  cases input with
  | nil => cases h
  | cons len input =>
    simp only [takeCounted] at h
    split at h
    · cases h
    · split at h
      · cases h
      · cases h
        rw [List.length_drop, List.length_cons]
        omega

theorem unpackTransfer_shorter (input : List UInt8) (tx : Value) (rest : List UInt8)
    (h : unpackTransfer input = some (.next tx rest)) : rest.length < input.length := by
  unfold unpackTransfer at h
  split at h
  · cases h
  · split at h
    · cases h
    · cases h
    · rename_i value left hvalue
      split at h
      · cases h
      · cases h
      · rename_i nonceBytes left' hnonce
        split at h
        · cases h
        · cases h
          have hshorter := takeCounted_shorter hvalue
          have hshorter' := takeCounted_shorter hnonce
          rw [List.length_drop] at hshorter ⊢
          omega

/-- `toVec` is `serde_json::to_vec`. -/
def testDecompress (toVec : List Value → Option (List UInt8)) (data : List UInt8) :
    Option (List UInt8) :=
  if data.head? = some 1 then do
    let txs ← Packing.readAll unpackTransfer unpackTransfer_shorter data.tail
    pure ((toVec txs).getD data)
  else some data

end RollupX.Submitter
