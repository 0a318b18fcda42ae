import Mathlib.Algebra.BigOperators.Fin
import Mathlib.Algebra.BigOperators.Group.Finset.Piecewise
import Mathlib.Algebra.Order.BigOperators.Group.Finset

/-! Ledgers of balances and sequence numbers over an arbitrary finite set of holders, in
the naturals: what a transfer means, and that it conserves the total. -/

open Finset

variable {K : Type*} [DecidableEq K]

theorem Finset.sum_update_add [Fintype K] (f : K → ℕ) (k : K) (v : ℕ) :
    ∑ x, Function.update f k v x + f k = ∑ x, f x + v := by
  rw [sum_update_of_mem (mem_univ k), sdiff_singleton_eq_erase,
    ← add_sum_erase univ f (mem_univ k)]
  omega

theorem Finset.add_le_sum_of_ne [Fintype K] (f : K → ℕ) {a b : K} (h : a ≠ b) :
    f a + f b ≤ ∑ x, f x := by
  rw [← sum_pair h]
  exact sum_le_univ_sum_of_nonneg (fun _ => Nat.zero_le _)

@[ext] structure Ledger (K : Type*) where
  balance : K → ℕ
  nonce : K → ℕ

namespace Ledger

def total [Fintype K] (l : Ledger K) : ℕ :=
  ∑ k, l.balance k

/-- `amount` moves from `src` to `dst` and the sequence number of `src` advances. The
credit is added to what the debit left, so `src = dst` moves nothing. -/
def transfer (l : Ledger K) (src dst : K) (amount : ℕ) : Ledger K :=
  let debited := Function.update l.balance src (l.balance src - amount)
  ⟨Function.update debited dst (debited dst + amount),
    Function.update l.nonce src (l.nonce src + 1)⟩

theorem total_transfer [Fintype K] (l : Ledger K) (src dst : K) {amount : ℕ}
    (h : amount ≤ l.balance src) : (l.transfer src dst amount).total = l.total := by
  have hdebit := sum_update_add l.balance src (l.balance src - amount)
  have hcredit := sum_update_add
    (Function.update l.balance src (l.balance src - amount)) dst
    (Function.update l.balance src (l.balance src - amount) dst + amount)
  simp only [total, transfer]
  omega

/-- No holder has used a number twice, and every used number is below the current one. -/
structure Spent (nonce : K → ℕ) (used : List (K × ℕ)) : Prop where
  nodup : used.Nodup
  below : ∀ e ∈ used, e.2 < nonce e.1

omit [DecidableEq K] in
theorem Spent.nil (nonce : K → ℕ) : Spent nonce [] :=
  ⟨List.nodup_nil, by simp⟩

omit [DecidableEq K] in
theorem Spent.perm {nonce : K → ℕ} {used used' : List (K × ℕ)} (h : Spent nonce used)
    (hp : used.Perm used') : Spent nonce used' :=
  ⟨hp.nodup_iff.mp h.nodup, fun e he => h.below e (hp.mem_iff.mpr he)⟩

theorem Spent.advance {nonce : K → ℕ} {used : List (K × ℕ)} (h : Spent nonce used) (k : K) :
    Spent (Function.update nonce k (nonce k + 1)) (used ++ [(k, nonce k)]) := by
  constructor
  · have hfresh : (k, nonce k) ∉ used := fun hmem => lt_irrefl _ (h.below _ hmem)
    rw [List.nodup_append]
    refine ⟨h.nodup, List.nodup_singleton _, ?_⟩
    intro e he e' he' heq
    rw [heq, List.mem_singleton.mp he'] at he
    exact hfresh he
  · intro e he
    rcases List.mem_append.mp he with hold | hnew
    · have hlt := h.below e hold
      by_cases hk : e.1 = k
      · rw [hk, Function.update_self]
        rw [hk] at hlt
        omega
      · rw [Function.update_of_ne hk]
        exact hlt
    · rw [List.mem_singleton.mp hnew]
      simp

end Ledger
