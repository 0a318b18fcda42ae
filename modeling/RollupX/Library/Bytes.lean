import Mathlib.Data.UInt
import Mathlib.Tactic.Ring

/-! Fixed-width byte encodings of naturals and saturating 64-bit addition. -/

namespace Bytes

/-- The `width` low bytes of `n`, least significant first. -/
def le : (width n : ℕ) → List UInt8
  | 0, _ => []
  | width + 1, n => UInt8.ofNat n :: le width (n / 256)

def be (width n : ℕ) : List UInt8 :=
  (le width n).reverse

def ofLe : List UInt8 → ℕ
  | [] => 0
  | b :: bs => b.toNat + 256 * ofLe bs

def ofBe (bs : List UInt8) : ℕ :=
  ofLe bs.reverse

@[simp] theorem length_le (width n : ℕ) : (le width n).length = width := by
  induction width generalizing n with
  | zero => rfl
  | succ width ih => simp [le, ih]

@[simp] theorem length_be (width n : ℕ) : (be width n).length = width := by
  simp [be]

theorem ofLe_le (width n : ℕ) : ofLe (le width n) = n % 256 ^ width := by
  induction width generalizing n with
  | zero => simp [le, ofLe, Nat.mod_one]
  | succ width ih =>
    have hb : (UInt8.ofNat n).toNat = n % 256 := by simp
    rw [le, ofLe, ih, hb, Nat.pow_succ', Nat.mod_mul]

theorem ofLe_le_of_lt {width n : ℕ} (h : n < 256 ^ width) : ofLe (le width n) = n := by
  rw [ofLe_le, Nat.mod_eq_of_lt h]

theorem ofBe_be_of_lt {width n : ℕ} (h : n < 256 ^ width) : ofBe (be width n) = n := by
  rw [ofBe, be, List.reverse_reverse, ofLe_le_of_lt h]

theorem be_inj {width n m : ℕ} (hn : n < 256 ^ width) (hm : m < 256 ^ width) :
    be width n = be width m ↔ n = m := by
  constructor
  · intro h
    rw [← ofBe_be_of_lt hn, h, ofBe_be_of_lt hm]
  · rintro rfl
    rfl

theorem le_zero (width : ℕ) : le width 0 = List.replicate width 0 := by
  induction width with
  | zero => rfl
  | succ width ih => rw [le, Nat.zero_div, ih, List.replicate_succ]; rfl

theorem le_add_of_lt {width n : ℕ} (more : ℕ) (h : n < 256 ^ width) :
    le (width + more) n = le width n ++ List.replicate more 0 := by
  induction width generalizing n with
  | zero =>
    obtain rfl : n = 0 := by simpa using h
    rw [Nat.zero_add, le_zero, le, List.nil_append]
  | succ width ih =>
    have hdiv : n / 256 < 256 ^ width := by
      rw [Nat.pow_succ] at h
      exact Nat.div_lt_of_lt_mul (by rwa [Nat.mul_comm] at h)
    rw [Nat.add_right_comm, le, ih hdiv, le, List.cons_append]

theorem be_add_of_lt {width n : ℕ} (more : ℕ) (h : n < 256 ^ width) :
    be (width + more) n = List.replicate more 0 ++ be width n := by
  rw [be, be, le_add_of_lt more h, List.reverse_append, List.reverse_replicate]

theorem ofLe_lt (bs : List UInt8) : ofLe bs < 256 ^ bs.length := by
  induction bs with
  | nil => simp [ofLe]
  | cons b bs ih =>
    have hb := b.toNat_lt
    rw [ofLe, List.length_cons, Nat.pow_succ]
    omega

theorem ofBe_lt (bs : List UInt8) : ofBe bs < 256 ^ bs.length := by
  simpa [ofBe] using ofLe_lt bs.reverse

theorem ofLe_inj {bs cs : List UInt8} (hlength : bs.length = cs.length)
    (h : ofLe bs = ofLe cs) : bs = cs := by
  induction bs generalizing cs with
  | nil => exact (List.length_eq_zero_iff.mp hlength.symm).symm
  | cons b bs ih =>
    cases cs with
    | nil => simp at hlength
    | cons c cs =>
      have hb := b.toNat_lt
      have hc := c.toNat_lt
      rw [ofLe, ofLe] at h
      have hhead : b = c := UInt8.toNat_inj.mp (by omega)
      rw [hhead, ih (by simpa using hlength) (by omega)]

theorem ofBe_inj {bs cs : List UInt8} (hlength : bs.length = cs.length)
    (h : ofBe bs = ofBe cs) : bs = cs :=
  List.reverse_injective (ofLe_inj (by simpa using hlength) h)

/-- Rust's `u64::saturating_add`. -/
def saturatingAdd (x y : UInt64) : UInt64 :=
  if x.toNat + y.toNat < 2 ^ 64 then x + y else 18446744073709551615

theorem toNat_saturatingAdd (x y : UInt64) :
    (saturatingAdd x y).toNat = min (x.toNat + y.toNat) (2 ^ 64 - 1) := by
  unfold saturatingAdd
  split
  · rename_i h
    rw [UInt64.toNat_add, Nat.mod_eq_of_lt h]
    omega
  · rename_i h
    have hmax : (18446744073709551615 : UInt64).toNat = 2 ^ 64 - 1 := by decide
    omega

end Bytes
