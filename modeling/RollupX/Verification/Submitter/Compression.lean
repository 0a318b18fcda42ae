import Mathlib.Algebra.Order.BigOperators.Group.List
import RollupX.Library.Fallible
import RollupX.Library.Json
import RollupX.Library.Packing
import RollupX.Model.Submitter.BatchSource
import RollupX.Model.Submitter.Compression

/-! What the packed transactions of a batch still say, and when there are any. -/

namespace RollupX.Submitter

open Fallible Packing
open Executor (Address)
open Json (natText quoted arrayText objectText ascii readKnown readKnown_write)

section Lists

variable {α : Type} {parse : List UInt8 → Option (List Value)} {data : List UInt8}
  {txs : List Value} {xs : List α} {pack : α → List UInt8}

theorem bitPackTransactions_of_forall₂
    (h : List.Forall₂ (fun tx x => packTransfer (transferOf tx) = some (pack x)) txs xs) :
    bitPackTransactions txs = some (1 :: xs.flatMap pack) := by
  have hpacked : txs.mapM (fun tx => packTransfer (transferOf tx)) = some (xs.map pack) := by
    rw [mapM_some_iff, List.forall₂_map_right_iff]
    exact h
  rw [bitPackTransactions, hpacked, List.flatMap_def]
  rfl

theorem compress_of_forall₂ (hparse : parse data = some txs)
    (h : List.Forall₂ (fun tx x => packTransfer (transferOf tx) = some (pack x)) txs xs) :
    (compress parse data).map Prod.fst = some (1 :: xs.flatMap pack) := by
  rw [compress, hparse]
  simp only [bitPackTransactions_of_forall₂ h]
  rfl

end Lists

@[simp] theorem byte_ofByte (b : UInt8) : Value.byte (.number (some b.toUInt64)) = b := by
  simp [Value.byte, Value.asU64]

@[simp] theorem parseAddress_ofBytes (a : Address) :
    parseAddress (.ofBytes a.toList) = a.toList := by
  have hbytes : ((a.toList.map fun b => Value.number (some b.toUInt64)).take 20).map Value.byte =
      a.toList := by
    rw [List.take_of_length_le (by simp), List.map_map]
    simp [Function.comp_def]
  rw [Value.ofBytes, parseAddress, hbytes]
  simp [zeros]

def packed (tx : Executor.Transaction) : List UInt8 :=
  tx.sender.toList ++ tx.receiver.toList ++ [0] ++ varInt (Bytes.be 8 tx.nonce.toNat) ++ zeros 65

theorem packTransfer_ofTransaction (tx : Executor.Transaction) :
    packTransfer (transferOf (.ofTransaction tx)) = some (packed tx) := by
  have hempty : varInt (zeros 32) = [0] := by decide
  simp [packTransfer, transferOf, Value.ofTransaction, Value.index, Value.get,
    List.lookup_cons, parseU256, Value.asU64, packed, hempty]

theorem selfDelimiting_nonce :
    SelfDelimiting (fun nonce : UInt64 => varInt (Bytes.be 8 nonce.toNat)) id := by
  refine selfDelimiting_counted (fun nonce => ?_) fun nonce nonce' h => ?_
  · have := List.length_dropWhile_le (· == 0) (Bytes.be 8 nonce.toNat)
    rw [Bytes.length_be] at this
    omega
  · have hbytes := eq_of_dropWhile_zero_eq (by simp) h
    exact UInt64.toNat_inj.mp ((Bytes.be_inj nonce.toNat_lt nonce'.toNat_lt).mp hbytes)

theorem selfDelimiting_packed :
    SelfDelimiting packed (fun tx => (tx.sender, tx.receiver, tx.nonce)) := by
  have hsender := (selfDelimiting_vector 20).comap Executor.Transaction.sender
  have hreceiver := (selfDelimiting_vector 20).comap Executor.Transaction.receiver
  have hnonce := selfDelimiting_nonce.comap Executor.Transaction.nonce
  have hpacked := (((hsender.append hreceiver).append (selfDelimiting_const [0])).append
    hnonce).append (selfDelimiting_const (zeros 65))
  exact hpacked.map_key fun key => (key.1.1.1.1, key.1.1.1.2, key.1.2)

theorem packed_ne_nil (tx : Executor.Transaction) : packed tx ≠ [] := by
  simp [packed]

theorem compress_fst {parse : List UInt8 → Option (List Value)} {data : List UInt8}
    {txs : List Executor.Transaction} (h : parse data = some (txs.map .ofTransaction)) :
    (compress parse data).map Prod.fst = some (1 :: txs.flatMap packed) := by
  refine compress_of_forall₂ h ?_
  rw [List.forall₂_map_left_iff]
  exact List.forall₂_same.mpr fun tx _ => packTransfer_ofTransaction tx

def archived (tx : Executor.Transaction) : Address × Address × UInt64 × UInt64 × List UInt8 :=
  (tx.sender, tx.receiver, tx.amount, tx.nonce, tx.signature)

theorem map_pair_eq {α β γ : Type*} {f : α → β} {g : α → γ} {xs ys : List α}
    (hf : xs.map f = ys.map f) (hg : xs.map g = ys.map g) :
    xs.map (fun x => (f x, g x)) = ys.map fun x => (f x, g x) := by
  rw [← List.zip_map', ← List.zip_map', hf, hg]

/-- Two batches that are packed into the same bytes have the same senders, receivers and nonces,
and nothing is known about their amounts and signatures. -/
theorem archived_eq_iff_of_compress_eq (toVec : List Executor.Transaction → List UInt8)
    (parse : List UInt8 → Option (List Value)) (txs txs' : List Executor.Transaction)
    (htxs : parse (batchDataBytes toVec (.executed txs)) = some (txs.map .ofTransaction))
    (htxs' : parse (batchDataBytes toVec (.executed txs')) = some (txs'.map .ofTransaction))
    (h : (compress parse (batchDataBytes toVec (.executed txs))).map Prod.fst =
      (compress parse (batchDataBytes toVec (.executed txs'))).map Prod.fst) :
    txs.map archived = txs'.map archived ↔
      txs.map (fun tx => (tx.amount, tx.signature)) =
        txs'.map fun tx => (tx.amount, tx.signature) := by
  rw [compress_fst htxs, compress_fst htxs'] at h
  have hpacked := (List.cons.inj (Option.some.inj h)).2
  have hkeys := selfDelimiting_packed.map_eq_of_flatMap_eq packed_ne_nil hpacked
  constructor
  · intro harchived
    have := congrArg (List.map fun key => (key.2.2.1, key.2.2.2.2)) harchived
    simpa [Function.comp_def, archived] using this
  · intro hrest
    have := congrArg (List.map fun pair =>
      (pair.1.1, pair.1.2.1, pair.2.1, pair.1.2.2, pair.2.2)) (map_pair_eq hkeys hrest)
    rw [List.map_map, List.map_map] at this
    exact this

mutual

def Value.text : Value → Text
  | .null => "null".toList
  | .bool b => (toString b).toList
  | .number n => natText (n.getD 0).toNat
  | .string s => quoted s
  | .array items => arrayText (itemTexts items)
  | .object fields => objectText (fieldTexts fields)

def Value.itemTexts : List Value → List Text
  | [] => []
  | v :: vs => v.text :: itemTexts vs

def Value.fieldTexts : List (String × Value) → List (String × Text)
  | [] => []
  | (name, v) :: fields => (name, v.text) :: fieldTexts fields

end

def valuesToVec (values : List Value) : List UInt8 :=
  ascii (Value.array values).text

def transactionsToVec (txs : List Executor.Transaction) : List UInt8 :=
  valuesToVec (txs.map .ofTransaction)

def signedPayment (amount : UInt64) (b : UInt8) : Executor.Transaction :=
  ⟨Vector.replicate 20 7, Vector.replicate 20 8, amount, 0, List.replicate 65 b, 0, 21000, 0, 0⟩

def pricedPayments (gasPrice : UInt64) : List Executor.Transaction :=
  [signedPayment 5 1, { signedPayment 6 2 with nonce := 1, gasPrice }]

theorem archived_eq_otherGasPrice :
    (pricedPayments 0).map archived = (pricedPayments 1).map archived := by
  have hdistinct : [(pricedPayments 0).map Value.ofTransaction,
      (pricedPayments 1).map .ofTransaction].Pairwise
        fun vs ws => valuesToVec vs ≠ valuesToVec ws := by
    decide +kernel
  have hfree := readKnown_write hdistinct (List.mem_cons_self ..)
  have hpriced := readKnown_write hdistinct (List.mem_cons_of_mem _ (List.mem_cons_self ..))
  refine (archived_eq_iff_of_compress_eq transactionsToVec (readKnown valuesToVec _) _ _ hfree
    hpriced ?_).mpr rfl
  exact (compress_fst hfree).trans (compress_fst hpriced).symm

/-- A payment of 5 and one of 1000 by the same sender, with other signatures, are packed into
the same bytes, whatever the text of their JSON is. -/
theorem compress_otherAmount :
    [signedPayment 5 1].map archived ≠ [signedPayment 1000 2].map archived ∧
      ∀ (toVec : List Executor.Transaction → List UInt8)
        (parse : List UInt8 → Option (List Value)),
        parse (batchDataBytes toVec (.executed [signedPayment 5 1])) =
          some ([signedPayment 5 1].map .ofTransaction) →
        parse (batchDataBytes toVec (.executed [signedPayment 1000 2])) =
          some ([signedPayment 1000 2].map .ofTransaction) →
        (compress parse (batchDataBytes toVec (.executed [signedPayment 5 1]))).map Prod.fst =
          (compress parse (batchDataBytes toVec (.executed [signedPayment 1000 2]))).map
            Prod.fst := by
  refine ⟨by decide, fun toVec parse hfive hthousand => ?_⟩
  rw [compress_fst hfive, compress_fst hthousand]
  rfl

/-- The array of a `value` fits into 32 bytes. -/
def Value.fitsU256 : Value → Bool
  | .array items => items.length ≤ 32
  | _ => true

def ValuesFit (parse : List UInt8 → Option (List Value)) (data : List UInt8) : Prop :=
  ∀ txs, parse data = some txs → ∀ tx ∈ txs, ((transferOf tx).index "value").fitsU256 = true

section Returns

variable {parse : List UInt8 → Option (List Value)} {data : List UInt8} {txs : List Value}

theorem isSome_packTransfer (tx : Value) :
    (packTransfer tx).isSome = (tx.index "value").fitsU256 := by
  unfold packTransfer
  cases tx.index "value" with
  | array items => by_cases h : items.length ≤ 32 <;> simp [parseU256, Value.fitsU256, h]
  | _ => rfl

theorem isSome_bitPackTransactions :
    (bitPackTransactions txs).isSome = true ↔
      ∀ tx ∈ txs, ((transferOf tx).index "value").fitsU256 = true := by
  rw [bitPackTransactions, Option.bind_eq_bind, Option.isSome_bind]
  simp only [Option.pure_def, Option.isSome_some, Option.any_true, isSome_mapM_iff,
    isSome_packTransfer]

theorem isSome_compress : (compress parse data).isSome = true ↔ ValuesFit parse data := by
  unfold compress ValuesFit
  cases parse data with
  | none => simp
  | some txs =>
    have hpack := @isSome_bitPackTransactions txs
    cases hpacked : bitPackTransactions txs <;> simp_all

theorem checkedCalldataGas_eq (data : List UInt8) :
    checkedCalldataGas data = u64 (calculateCalldataGas data) := by
  have hsum : ∀ gas, gas < 2 ^ 64 →
      data.foldlM (fun gas b => u64 (gas + if b = 0 then 4 else 16)) gas =
        u64 (gas + calculateCalldataGas data) := by
    induction data with
    | nil => exact fun gas hgas => (if_pos hgas).symm
    | cons b data ih =>
      intro gas hgas
      have hrest : gas + calculateCalldataGas (b :: data) =
          (gas + if b = 0 then 4 else 16) + calculateCalldataGas data := by
        simp [calculateCalldataGas, Nat.add_assoc]
      rw [List.foldlM_cons, hrest]
      by_cases hfits : (gas + if b = 0 then 4 else 16) < 2 ^ 64
      · rw [u64, if_pos hfits]
        exact ih _ hfits
      · rw [u64, if_neg hfits, u64, if_neg (by omega)]
        rfl
  rw [checkedCalldataGas, hsum 0 (by decide), Nat.zero_add]

/-- The gas of the packed transactions, from those of each. -/
def packedGas (txs : List Value) : ℕ :=
  16 + (txs.map fun tx => calculateCalldataGas ((packTransfer (transferOf tx)).getD [])).sum

theorem calculateCalldataGas_flatten (parts : List (List UInt8)) :
    calculateCalldataGas parts.flatten = (parts.map calculateCalldataGas).sum := by
  induction parts with
  | nil => rfl
  | cons part parts ih =>
    rw [List.flatten_cons, List.map_cons, List.sum_cons, ← ih]
    simp [calculateCalldataGas]

theorem gas_bitPackTransactions {compressedData : List UInt8}
    (h : bitPackTransactions txs = some compressedData) :
    calculateCalldataGas compressedData = packedGas txs := by
  obtain ⟨parts, hparts, hcons⟩ := Option.bind_eq_some_iff.mp h
  cases hcons
  have hgas : parts.map calculateCalldataGas =
      txs.map fun tx => calculateCalldataGas ((packTransfer (transferOf tx)).getD []) := by
    have hall := (mapM_some_iff _ _ _).mp hparts
    clear hparts h
    induction hall with
    | nil => rfl
    | cons hpart _ ih => rw [List.map_cons, List.map_cons, ih, hpart, Option.getD_some]
  rw [packedGas, ← hgas, ← calculateCalldataGas_flatten]
  rfl

/-- The two sums of a debug build do not overflow. -/
def GasFits (parse : List UInt8 → Option (List Value)) (data : List UInt8) : Prop :=
  calculateCalldataGas data < 2 ^ 64 ∧ ∀ txs, parse data = some txs → packedGas txs < 2 ^ 64

theorem gasFits_iff {out : List UInt8 × CompressionMetrics}
    (h : compress parse data = some out) :
    GasFits parse data ↔
      calculateCalldataGas data < 2 ^ 64 ∧ calculateCalldataGas out.1 < 2 ^ 64 := by
  unfold GasFits
  cases hparse : parse data with
  | none =>
    rw [compress, hparse] at h
    cases h
    simp
  | some txs =>
    rw [compress, hparse] at h
    obtain ⟨compressedData, hpacked, hout⟩ := Option.bind_eq_some_iff.mp h
    cases hout
    simp [gas_bitPackTransactions hpacked]

theorem isSome_compressChecked :
    (compressChecked parse data).isSome = true ↔ ValuesFit parse data ∧ GasFits parse data := by
  rw [← isSome_compress]
  cases hcompress : compress parse data with
  | none => simp [compressChecked, hcompress]
  | some out =>
    rw [gasFits_iff hcompress, and_iff_right (Option.isSome_some)]
    simp only [compressChecked, hcompress, checkedCalldataGas_eq, u64, Option.bind_eq_bind,
      Option.bind_some]
    split <;> split <;> simp_all

theorem calculateCalldataGas_le (data : List UInt8) :
    calculateCalldataGas data ≤ 16 * data.length := by
  induction data with
  | nil => exact Nat.le_refl 0
  | cons b data ih =>
    simp only [calculateCalldataGas, List.map_cons, List.sum_cons, List.length_cons] at ih ⊢
    split <;> omega

theorem length_parseAddress (v : Value) : (parseAddress v).length = 20 := by
  unfold parseAddress
  split
  · split
    · split <;> simp_all [zeros]
    · simp [zeros]
  · simp [zeros]
  · simp [zeros]

theorem length_varInt_le (bytes : List UInt8) : (varInt bytes).length ≤ bytes.length + 1 :=
  Nat.succ_le_succ (List.length_dropWhile_le _ bytes)

theorem length_packTransfer {tx : Value} {packed : List UInt8}
    (h : packTransfer tx = some packed) : packed.length ≤ 147 := by
  obtain ⟨value, hvalue, h⟩ := Option.bind_eq_some_iff.mp h
  cases h
  have hvalue : value.length = 32 := by
    unfold parseU256 at hvalue
    split at hvalue
    · split at hvalue
      · cases hvalue
        simp [zeros]
        omega
      · contradiction
    · cases hvalue
      rfl
  have hcounted := length_varInt_le value
  have hnonce := length_varInt_le (Bytes.be 8 (((tx.index "nonce").asU64).getD 0).toNat)
  simp only [List.length_append, length_parseAddress, Bytes.length_be] at hnonce ⊢
  simp only [zeros, List.length_replicate]
  omega

/-- No sum overflows below 4 PiB, if a parsed list has no more elements than its text has
bytes. -/
theorem gasFits_of_length (hparse : ∀ txs, parse data = some txs → txs.length ≤ data.length)
    (hdata : data.length < 2 ^ 52) : GasFits parse data := by
  have hone : ∀ tx, calculateCalldataGas ((packTransfer (transferOf tx)).getD []) ≤ 16 * 147 := by
    intro tx
    cases h : packTransfer (transferOf tx) with
    | none => exact Nat.zero_le _
    | some packed =>
      exact (calculateCalldataGas_le packed).trans
        (Nat.mul_le_mul_left 16 (length_packTransfer h))
  refine ⟨?_, fun txs htxs => ?_⟩
  · have := calculateCalldataGas_le data
    omega
  · have hsum := List.sum_le_card_nsmul (txs.map fun tx =>
      calculateCalldataGas ((packTransfer (transferOf tx)).getD [])) (16 * 147)
      (by simpa using fun tx _ => hone tx)
    have hlength := hparse txs htxs
    rw [List.length_map, Nat.nsmul_eq_mul] at hsum
    rw [packedGas]
    omega

end Returns

/-- A call returns if and only if every `value` has at most 32 elements and, in a debug build, the
sums do not overflow. -/
theorem compress_returns_iff (parse : List UInt8 → Option (List Value)) (data : List UInt8) :
    ((compress parse data).isSome = true ↔ ValuesFit parse data) ∧
      ((compressChecked parse data).isSome = true ↔ ValuesFit parse data ∧ GasFits parse data) :=
  ⟨isSome_compress, isSome_compressChecked⟩

def longValue : Value :=
  .object [("value", .ofBytes (zeros 33))]

theorem compress_longValue :
    (longValue.index "value").fitsU256 = false ∧
      ∀ (parse : List UInt8 → Option (List Value)) (data : List UInt8),
        parse data = some [longValue] → compress parse data = none := by
  refine ⟨rfl, fun parse data hparse => ?_⟩
  rw [compress, hparse]
  rfl

end RollupX.Submitter
