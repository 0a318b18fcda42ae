import RollupX.Verification.Submitter.Compression
import RollupX.Verification.Submitter.Recovery

/-! The packed format read back by the decoder of the boundary tests. The records have no marks
between them: the decoder finds the end of each from the two counts in it. -/

namespace RollupX.Submitter

open Json (readKnown readKnown_write)
open Packing
open Executor (Address)

/-- What a packed record says. -/
structure Transfer where
  sender : Address
  receiver : Address
  value : Vector UInt8 32
  nonce : UInt64
  deriving DecidableEq, Repr

/-- The text is the address in hexadecimal digits of either case, with or without `0x`. -/
def Value.IsAddress (v : Value) (a : Address) : Prop :=
  ∃ text, v = .string text ∧ decodeHexText text = .ok a.toList

/-- A `Transfer` object with these fields, and maybe others. -/
structure Value.IsTransfer (tx : Value) (t : Transfer) : Prop where
  sender : ((tx.index "Transfer").index "from").IsAddress t.sender
  receiver : ((tx.index "Transfer").index "to").IsAddress t.receiver
  value : (tx.index "Transfer").index "value" = .ofBytes t.value.toList
  nonce : (tx.index "Transfer").index "nonce" = .number (some t.nonce)

def Transfer.toValue (t : Transfer) : Value :=
  .ofTransfer t.sender.toList t.receiver.toList t.value.toList t.nonce (zeros 65)

theorem isTransfer_toValue (t : Transfer) : t.toValue.IsTransfer t where
  sender := ⟨_, rfl, decodeHexText_hexText _⟩
  receiver := ⟨_, rfl, decodeHexText_hexText _⟩
  value := rfl
  nonce := rfl

def Transfer.packed (t : Transfer) : List UInt8 :=
  t.sender.toList ++ t.receiver.toList ++ varInt t.value.toList ++
    varInt (Bytes.be 8 t.nonce.toNat) ++ zeros 65

theorem parseAddress_of_isAddress {v : Value} {a : Address} (h : v.IsAddress a) :
    parseAddress v = a.toList := by
  obtain ⟨text, rfl, htext⟩ := h
  rw [parseAddress, htext]
  exact if_pos (by simp)

theorem parseU256_ofBytes (bytes : Vector UInt8 32) :
    parseU256 (.ofBytes bytes.toList) = some bytes.toList := by
  simp [parseU256, Value.ofBytes, zeros, Function.comp_def]

theorem transferOf_isTransfer {tx : Value} {t : Transfer} (h : tx.IsTransfer t) :
    transferOf tx = tx.index "Transfer" := by
  cases hget : tx.get "Transfer" with
  | none =>
    have hnull : tx.index "Transfer" = .null := by rw [Value.index, hget, Option.getD_none]
    have hvalue := h.value
    rw [hnull] at hvalue
    contradiction
  | some body => simp [transferOf, Value.index, hget]

theorem packTransfer_isTransfer {tx : Value} {t : Transfer} (h : tx.IsTransfer t) :
    packTransfer (transferOf tx) = some t.packed := by
  rw [transferOf_isTransfer h, packTransfer, parseAddress_of_isAddress h.sender,
    parseAddress_of_isAddress h.receiver, h.value, parseU256_ofBytes, h.nonce]
  rfl

theorem takeCounted_varInt {width : ℕ} {bytes : List UInt8} (hwidth : bytes.length = width)
    (hsmall : width < 256) (rest : List UInt8) :
    takeCounted width (varInt bytes ++ rest) = some (some (bytes, rest)) := by
  have hle := List.length_dropWhile_le (· == 0) bytes
  have hbyte : (bytes.dropWhile (· == 0)).length < 256 := by omega
  have hlen : (UInt8.ofNat (bytes.dropWhile (· == 0)).length).toNat =
      (bytes.dropWhile (· == 0)).length := UInt8.toNat_ofNat_of_lt' hbyte
  have hzeros : zeros (width - (bytes.dropWhile (· == 0)).length) ++
      bytes.dropWhile (· == 0) = bytes := by
    rw [← hwidth]
    exact replicate_append_dropWhile_zero bytes
  rw [varInt, List.cons_append, takeCounted, hlen, if_neg (by simp), if_neg (by omega),
    List.take_left, List.drop_left, hzeros]

theorem unpackTransfer_packed (t : Transfer) (rest : List UInt8) :
    unpackTransfer (t.packed ++ rest) = some (.next t.toValue rest) := by
  have hnonce : UInt64.ofNat (Bytes.ofBe (Bytes.be 8 t.nonce.toNat)) = t.nonce := by
    rw [Bytes.ofBe_be_of_lt t.nonce.toNat_lt, UInt64.ofNat_toNat]
  have hinput : t.packed ++ rest = t.sender.toList ++ (t.receiver.toList ++
      (varInt t.value.toList ++ (varInt (Bytes.be 8 t.nonce.toNat) ++ (zeros 65 ++ rest)))) := by
    simp [Transfer.packed]
  have hlong : ¬ (t.packed ++ rest).length < 40 := by
    simp [hinput]
    omega
  have hsender : (t.packed ++ rest).take 20 = t.sender.toList := by
    rw [hinput, List.take_left' (by simp)]
  have hreceiver : ((t.packed ++ rest).drop 20).take 20 = t.receiver.toList := by
    rw [hinput, List.drop_left' (by simp), List.take_left' (by simp)]
  have hdrop : (t.packed ++ rest).drop 40 =
      varInt t.value.toList ++ (varInt (Bytes.be 8 t.nonce.toNat) ++ (zeros 65 ++ rest)) := by
    rw [hinput, ← List.append_assoc, List.drop_left' (by simp)]
  rw [unpackTransfer, if_neg hlong, hdrop, takeCounted_varInt (by simp) (by decide)]
  dsimp only
  rw [takeCounted_varInt (by simp) (by decide)]
  dsimp only
  rw [if_neg (by simp [zeros]), hsender, hreceiver, hnonce,
    List.take_left' (by simp [zeros]), List.drop_left' (by simp [zeros])]
  rfl

def Value.SameTransfer (tx tx' : Value) : Prop :=
  ∃ t, tx.IsTransfer t ∧ tx'.IsTransfer t

/-- The decoder reads back every transfer, in its place; the addresses are written in lower case
and with `0x`. -/
theorem testDecompress_compress (toVec : List Value → Option (List UInt8))
    (parse : List UInt8 → Option (List Value)) (data : List UInt8) (txs : List Value)
    (transfers : List Transfer) (hparse : parse data = some txs)
    (htxs : List.Forall₂ Value.IsTransfer txs transfers) :
    ∃ compressedData metrics, compress parse data = some (compressedData, metrics) ∧
      testDecompress toVec compressedData =
        some ((toVec (transfers.map Transfer.toValue)).getD compressedData) ∧
      (transfers.map Transfer.toValue).length = txs.length ∧
      List.Forall₂ Value.SameTransfer txs (transfers.map Transfer.toValue) := by
  have hpack : (compress parse data).map Prod.fst = some (1 :: transfers.flatMap Transfer.packed) :=
    compress_of_forall₂ hparse (htxs.imp fun _ _ h => packTransfer_isTransfer h)
  obtain ⟨⟨compressedData, metrics⟩, hcompress, rfl⟩ := Option.map_eq_some_iff.mp hpack
  refine ⟨_, metrics, hcompress, ?_, ?_, ?_⟩
  · rw [testDecompress, if_pos List.head?_cons, List.tail_cons,
      readAll_flatMap unpackTransfer_packed]
    rfl
  · rw [List.length_map, htxs.length_eq]
  · rw [List.forall₂_map_right_iff]
    exact htxs.imp fun _ t h => ⟨t, h, isTransfer_toValue t⟩

def capitalTransfer (nonce : UInt64) : Value :=
  .object [("Transfer", .object [("nonce", .number (some nonce)),
    ("from", .string (List.replicate 40 'A')), ("to", .string (hexText (List.replicate 20 0xbb))),
    ("value", .ofBytes (List.replicate 31 0 ++ [7]))])]

theorem isTransfer_capitalTransfer (nonce : UInt64) : (capitalTransfer nonce).IsTransfer
    ⟨Vector.replicate 20 0xaa, Vector.replicate 20 0xbb, (Vector.replicate 31 0).push 7,
      nonce⟩ where
  sender := ⟨_, rfl, rfl⟩
  receiver := ⟨_, rfl, decodeHexText_hexText _⟩
  value := rfl
  nonce := rfl

theorem testDecompress_capitalTransfers :
    ∃ compressedData metrics decoded,
      compress (readKnown valuesToVec [[capitalTransfer 3, capitalTransfer 4]])
          (valuesToVec [capitalTransfer 3, capitalTransfer 4]) =
        some (compressedData, metrics) ∧
      testDecompress (fun vs => some (valuesToVec vs)) compressedData =
        some (valuesToVec decoded) ∧
      List.Forall₂ Value.SameTransfer [capitalTransfer 3, capitalTransfer 4] decoded := by
  obtain ⟨compressedData, metrics, hcompress, hdecompress, -, hsame⟩ :=
    testDecompress_compress (fun vs => some (valuesToVec vs))
      (readKnown valuesToVec [[capitalTransfer 3, capitalTransfer 4]])
      (valuesToVec [capitalTransfer 3, capitalTransfer 4]) [capitalTransfer 3, capitalTransfer 4]
      [_, _] (readKnown_write (List.pairwise_singleton ..) (List.mem_singleton.mpr rfl))
      (.cons (isTransfer_capitalTransfer 3) (.cons (isTransfer_capitalTransfer 4) .nil))
  exact ⟨compressedData, metrics, _, hcompress, hdecompress, hsame⟩

end RollupX.Submitter
