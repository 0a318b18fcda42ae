import Mathlib.Data.List.TakeWhile
import RollupX.Library.Bytes

/-! Byte strings that are written one after the other without separators. -/

namespace Packing

variable {α β κ κ' γ : Type*}

/-- A code word and what follows it fix the rest and `key` of the encoded value. -/
def SelfDelimiting (enc : α → List γ) (key : α → κ) : Prop :=
  ∀ x y rest rest', enc x ++ rest = enc y ++ rest' → key x = key y ∧ rest = rest'

theorem selfDelimiting_of_length {enc : α → List γ} {key : α → κ} (width : ℕ)
    (hlength : ∀ x, (enc x).length = width) (hkey : ∀ x y, enc x = enc y → key x = key y) :
    SelfDelimiting enc key := by
  intro x y rest rest' h
  obtain ⟨hword, hrest⟩ := List.append_inj h (by rw [hlength, hlength])
  exact ⟨hkey x y hword, hrest⟩

theorem selfDelimiting_const (word : List γ) :
    SelfDelimiting (fun _ : α => word) (fun _ => ()) :=
  selfDelimiting_of_length word.length (fun _ => rfl) fun _ _ _ => rfl

theorem selfDelimiting_vector (n : ℕ) : SelfDelimiting (fun v : Vector γ n => v.toList) id :=
  selfDelimiting_of_length n (fun v => by simp) fun _ _ h =>
    Vector.toArray_inj.mp (Array.toList_inj.mp h)

theorem selfDelimiting_u64 : SelfDelimiting (fun n : UInt64 => Bytes.be 8 n.toNat) id :=
  selfDelimiting_of_length 8 (fun n => by simp) fun n m h =>
    UInt64.toNat_inj.mp ((Bytes.be_inj n.toNat_lt m.toNat_lt).mp h)

namespace SelfDelimiting

variable {enc : α → List γ} {key : α → κ}

theorem key_eq (h : SelfDelimiting enc key) {x y : α} (heq : enc x = enc y) : key x = key y :=
  (h x y [] [] (by rw [heq])).1

theorem comap (h : SelfDelimiting enc key) (f : β → α) :
    SelfDelimiting (fun x => enc (f x)) (fun x => key (f x)) :=
  fun x y => h (f x) (f y)

theorem map_key (h : SelfDelimiting enc key) (f : κ → κ') :
    SelfDelimiting enc (fun x => f (key x)) := by
  intro x y rest rest' heq
  obtain ⟨hkey, hrest⟩ := h x y rest rest' heq
  exact ⟨congrArg f hkey, hrest⟩

theorem append {enc' : α → List γ} {key' : α → κ'} (h : SelfDelimiting enc key)
    (h' : SelfDelimiting enc' key') :
    SelfDelimiting (fun x => enc x ++ enc' x) (fun x => (key x, key' x)) := by
  intro x y rest rest' heq
  rw [List.append_assoc, List.append_assoc] at heq
  obtain ⟨hkey, heq⟩ := h x y _ _ heq
  obtain ⟨hkey', hrest⟩ := h' x y _ _ heq
  exact ⟨Prod.ext hkey hkey', hrest⟩

theorem map_eq_of_flatMap_eq (h : SelfDelimiting enc key) (hne : ∀ x, enc x ≠ [])
    {xs ys : List α} (heq : xs.flatMap enc = ys.flatMap enc) : xs.map key = ys.map key := by
  induction xs generalizing ys with
  | nil =>
    cases ys with
    | nil => rfl
    | cons y ys => simp [hne y] at heq
  | cons x xs ih =>
    cases ys with
    | nil => simp [hne x] at heq
    | cons y ys =>
      obtain ⟨hkey, hrest⟩ := h x y _ _ heq
      rw [List.map_cons, List.map_cons, hkey, ih hrest]

end SelfDelimiting

theorem selfDelimiting_counted {word : α → List UInt8} {key : α → κ}
    (hlength : ∀ x, (word x).length < 256) (hkey : ∀ x y, word x = word y → key x = key y) :
    SelfDelimiting (fun x => UInt8.ofNat (word x).length :: word x) key := by
  intro x y rest rest' h
  obtain ⟨hcount, h⟩ := List.cons.inj h
  have hsame : (word x).length = (word y).length := by
    have := congrArg UInt8.toNat hcount
    rwa [UInt8.toNat_ofNat_of_lt' (hlength x), UInt8.toNat_ofNat_of_lt' (hlength y)] at this
  obtain ⟨hword, hrest⟩ := List.append_inj h hsame
  exact ⟨hkey x y hword, hrest⟩

theorem replicate_append_dropWhile_zero (bs : List UInt8) :
    List.replicate (bs.length - (bs.dropWhile (· == 0)).length) 0 ++ bs.dropWhile (· == 0) =
      bs := by
  have hlength := congrArg List.length (List.takeWhile_append_dropWhile (p := (· == 0)) (l := bs))
  rw [List.length_append] at hlength
  have hzeros : bs.takeWhile (· == 0) =
      List.replicate (bs.length - (bs.dropWhile (· == 0)).length) 0 := by
    refine List.eq_replicate_iff.mpr ⟨?_, fun b hb => by simpa using List.mem_takeWhile_imp hb⟩
    omega
  rw [← hzeros, List.takeWhile_append_dropWhile]

theorem eq_of_dropWhile_zero_eq {bs cs : List UInt8} (hlength : bs.length = cs.length)
    (h : bs.dropWhile (· == 0) = cs.dropWhile (· == 0)) : bs = cs := by
  rw [← replicate_append_dropWhile_zero bs, ← replicate_append_dropWhile_zero cs, h, hlength]

/-- What a round of a reading loop comes to: an early exit, or an item and what is left. -/
inductive Round (β γ : Type*) where
  | exit
  | next (item : β) (rest : List γ)

/-- Rounds for as long as something is left. `none` where a round has no result. -/
def readAll (round : List γ → Option (Round β γ))
    (hshorter : ∀ l item rest, round l = some (.next item rest) → rest.length < l.length) :
    List γ → Option (List β)
  | [] => some []
  | c :: cs =>
    match _h : round (c :: cs) with
    | none => none
    | some .exit => some []
    | some (.next item rest) => (readAll round hshorter rest).map (item :: ·)
termination_by l => l.length
decreasing_by exact hshorter _ _ _ _h

section Reading

variable {round : List γ → Option (Round β γ)}
  {hshorter : ∀ l item rest, round l = some (.next item rest) → rest.length < l.length}

theorem readAll_of_next {l rest : List γ} {item : β} (h : round l = some (.next item rest)) :
    readAll round hshorter l = (readAll round hshorter rest).map (item :: ·) := by
  cases l with
  | nil => exact absurd (hshorter _ _ _ h) (Nat.not_lt_zero _)
  | cons c cs =>
    rw [readAll]
    split
    · simp_all
    · simp_all
    · rename_i item' rest' h'
      rw [h] at h'
      cases h'
      rfl

theorem readAll_flatMap {enc : α → List γ} {item : α → β}
    (hround : ∀ x rest, round (enc x ++ rest) = some (.next (item x) rest)) (xs : List α) :
    readAll round hshorter (xs.flatMap enc) = some (xs.map item) := by
  induction xs with
  | nil => rw [List.flatMap_nil, readAll, List.map_nil]
  | cons x xs ih => rw [List.flatMap_cons, readAll_of_next (hround x _), ih]; rfl

end Reading

end Packing
