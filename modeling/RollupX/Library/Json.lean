import Mathlib.Data.List.Basic
import Mathlib.Data.Nat.Digits.Lemmas

/-! JSON values and their text, and numbers and bytes written as hexadecimal text with the mark
`0x`. -/

inductive Json where
  | null
  | bool (b : Bool)
  | number (n : ℕ)
  | string (s : List Char)
  | array (items : List Json)
  | object (fields : List (String × Json))

namespace Json

def field (name : String) : Json → Option Json
  | object fields => fields.lookup name
  | _ => none

def asNumber : Json → Option ℕ
  | number n => some n
  | _ => none

def asString : Json → Option (List Char)
  | string s => some s
  | _ => none

def asArray : Json → Option (List Json)
  | array items => some items
  | _ => none

def quoted (s : List Char) : List Char :=
  '"' :: s ++ ['"']

def natText (n : ℕ) : List Char :=
  Nat.toDigits 10 n

def arrayText (items : List (List Char)) : List Char :=
  '[' :: [','].intercalate items ++ [']']

def bytesText (bytes : List UInt8) : List Char :=
  arrayText (bytes.map fun b => natText b.toNat)

def objectText (fields : List (String × List Char)) : List Char :=
  let members := fields.map fun (name, value) => quoted name.toList ++ ':' :: value
  '\x7b' :: [','].intercalate members ++ ['\x7d']

def prettyObjectText (fields : List (String × List Char)) : List Char :=
  let members := fields.map fun (name, value) =>
    '\n' :: ' ' :: ' ' :: quoted name.toList ++ ':' :: ' ' :: value
  '\x7b' :: [','].intercalate members ++ ['\n', '\x7d']

def ascii (text : List Char) : List UInt8 :=
  text.map fun c => UInt8.ofNat c.toNat

def readKnown {α β : Type*} [DecidableEq β] (write : α → β) (known : List α) (text : β) :
    Option α :=
  known.find? fun a => write a = text

theorem readKnown_write {α β : Type*} [DecidableEq β] {write : α → β} {known : List α} {a : α}
    (hdistinct : known.Pairwise fun a b => write a ≠ write b) (h : a ∈ known) :
    readKnown write known (write a) = some a := by
  induction known with
  | nil => cases h
  | cons first known ih =>
    rw [List.pairwise_cons] at hdistinct
    rcases List.mem_cons.mp h with rfl | hmem
    · exact List.find?_cons_of_pos (decide_eq_true rfl)
    · rw [readKnown, List.find?_cons_of_neg (by simpa using hdistinct.1 a hmem)]
      exact ih hdistinct.2 hmem

end Json

/-- Writing values as text of type `β` and reading them back. -/
structure JsonText (β : Type*) where
  write : Json → β
  read : β → Except String Json

namespace Hex

def digitVal (c : Char) : Option ℕ :=
  if '0' ≤ c ∧ c ≤ '9' then some (c.toNat - 48)
  else if 'a' ≤ c ∧ c ≤ 'f' then some (c.toNat - 87)
  else if 'A' ≤ c ∧ c ≤ 'F' then some (c.toNat - 55)
  else none

theorem digitVal_digitChar {d : ℕ} (h : d < 16) : digitVal (Nat.digitChar d) = some d := by
  have hall : ∀ d : Fin 16, digitVal (Nat.digitChar d) = some (d : ℕ) := by decide
  exact hall ⟨d, h⟩

theorem mapM_digitVal {ds : List ℕ} (h : ∀ d ∈ ds, d < 16) :
    (ds.map Nat.digitChar).mapM digitVal = some ds := by
  induction ds with
  | nil => rfl
  | cons d ds ih =>
    rw [List.map_cons, List.mapM_cons, digitVal_digitChar (h d List.mem_cons_self),
      ih fun e he => h e (List.mem_cons_of_mem d he)]
    rfl

def digits (n : ℕ) : List ℕ :=
  if n = 0 then [0] else (Nat.digits 16 n).reverse

def quantity (n : ℕ) : List Char :=
  '0' :: 'x' :: (digits n).map Nat.digitChar

/-- Reads a number of at most `width` digits. -/
def readQuantity (width : ℕ) : List Char → Option ℕ
  | '0' :: 'x' :: cs =>
    if cs.length ≤ width then (cs.mapM digitVal).map fun ds => Nat.ofDigits 16 ds.reverse
    else none
  | _ => none

theorem digits_lt (n : ℕ) : ∀ d ∈ digits n, d < 16 := by
  intro d hd
  unfold digits at hd
  split at hd
  · simp only [List.mem_singleton] at hd
    omega
  · exact Nat.digits_lt_base (by norm_num) (List.mem_reverse.mp hd)

theorem length_digits {n width : ℕ} (hwidth : 0 < width) (h : n < 16 ^ width) :
    (digits n).length ≤ width := by
  unfold digits
  split
  · exact hwidth
  · rw [List.length_reverse]
    exact (Nat.digits_length_le_iff (by norm_num) n).mpr h

theorem ofDigits_digits (n : ℕ) : Nat.ofDigits 16 (digits n).reverse = n := by
  unfold digits
  split
  · rename_i hn
    simp [hn]
  · rw [List.reverse_reverse, Nat.ofDigits_digits]

theorem readQuantity_quantity {n width : ℕ} (hwidth : 0 < width) (h : n < 16 ^ width) :
    readQuantity width (quantity n) = some n := by
  rw [quantity, readQuantity, List.length_map, if_pos (length_digits hwidth h),
    mapM_digitVal (digits_lt n), Option.map_some, ofDigits_digits]

def bytes (bs : List UInt8) : List Char :=
  '0' :: 'x' :: bs.flatMap fun b => [Nat.digitChar (b.toNat / 16), Nat.digitChar (b.toNat % 16)]

def pairs : List Char → Option (List UInt8)
  | high :: low :: rest => do
      let h ← digitVal high
      let l ← digitVal low
      let bs ← pairs rest
      pure (UInt8.ofNat (16 * h + l) :: bs)
  | [] => some []
  | [_] => none

def readBytes (count : ℕ) : List Char → Option (List UInt8)
  | '0' :: 'x' :: cs => if cs.length = 2 * count then pairs cs else none
  | _ => none

theorem pairs_flatMap (bs : List UInt8) :
    pairs (bs.flatMap fun b =>
      [Nat.digitChar (b.toNat / 16), Nat.digitChar (b.toNat % 16)]) = some bs := by
  induction bs with
  | nil => rfl
  | cons b bs ih =>
    have hlt := b.toNat_lt
    have hb : UInt8.ofNat (16 * (b.toNat / 16) + b.toNat % 16) = b := by
      rw [Nat.div_add_mod, UInt8.ofNat_toNat]
    rw [List.flatMap_cons, List.cons_append, List.cons_append, List.nil_append, pairs,
      digitVal_digitChar (by omega), digitVal_digitChar (by omega), ih]
    simp only [Option.bind_eq_bind, Option.bind_some, Option.pure_def, hb]

theorem readBytes_bytes (bs : List UInt8) : readBytes bs.length (bytes bs) = some bs := by
  have hlength : (bs.flatMap fun b =>
      [Nat.digitChar (b.toNat / 16), Nat.digitChar (b.toNat % 16)]).length = 2 * bs.length := by
    simp [List.length_flatMap, Nat.mul_comm]
  rw [bytes, readBytes, if_pos hlength, pairs_flatMap]

end Hex
