import Mathlib.Algebra.BigOperators.Group.List.Basic
import Mathlib.Algebra.GroupWithZero.Nat
import Mathlib.Logic.Function.Basic

/-! Debits that are promised now and made later. -/

/-- A promise that an account pays an amount. -/
structure Reservation (A : Type*) where
  owner : A
  amount : ℕ
  number : ℕ

namespace Reservation

variable {A : Type*} [DecidableEq A]

def held (a : A) (pending : List (Reservation A)) : ℕ :=
  ((pending.filter fun r => r.owner = a).map amount).sum

def numbers (a : A) (pending : List (Reservation A)) : List ℕ :=
  (pending.filter fun r => r.owner = a).map number

@[simp] theorem held_nil (a : A) : held a [] = 0 :=
  rfl

@[simp] theorem numbers_nil (a : A) : numbers a [] = [] :=
  rfl

theorem held_cons_self (r : Reservation A) (pending : List (Reservation A)) :
    held r.owner (r :: pending) = r.amount + held r.owner pending := by
  simp [held]

theorem held_cons_of_ne {r : Reservation A} {a : A} (h : a ≠ r.owner)
    (pending : List (Reservation A)) : held a (r :: pending) = held a pending := by
  simp [held, h.symm]

theorem numbers_cons_self (r : Reservation A) (pending : List (Reservation A)) :
    numbers r.owner (r :: pending) = r.number :: numbers r.owner pending := by
  simp [numbers]

theorem numbers_cons_of_ne {r : Reservation A} {a : A} (h : a ≠ r.owner)
    (pending : List (Reservation A)) : numbers a (r :: pending) = numbers a pending := by
  simp [numbers, h.symm]

theorem held_append (a : A) (pending pending' : List (Reservation A)) :
    held a (pending ++ pending') = held a pending + held a pending' := by
  simp [held]

theorem numbers_append (a : A) (pending pending' : List (Reservation A)) :
    numbers a (pending ++ pending') = numbers a pending ++ numbers a pending' := by
  simp [numbers]

/-- What is left and what is promised do not exceed the balance, and the promised numbers are
those from the expected one up to the next one. -/
structure Covered (left next balance expected : A → ℕ) (pending : List (Reservation A)) :
    Prop where
  balance : ∀ a, left a + held a pending ≤ balance a
  numbers : ∀ a, numbers a pending = List.range' (expected a) (numbers a pending).length
  next : ∀ a, next a = expected a + (Reservation.numbers a pending).length

variable {left next balance expected : A → ℕ} {pending : List (Reservation A)}

theorem covered_nil (hbalance : ∀ a, left a ≤ balance a) (hnext : next = expected) :
    Covered left next balance expected [] where
  balance := hbalance
  numbers _ := rfl
  next a := congrFun hnext a

theorem Covered.reserve (h : Covered left next balance expected pending) {r : Reservation A}
    {cost : ℕ} (hnumber : r.number = next r.owner) (hamount : r.amount ≤ cost)
    (hcost : cost ≤ left r.owner) :
    Covered (Function.update left r.owner (left r.owner - cost))
      (Function.update next r.owner (next r.owner + 1)) balance expected (pending ++ [r]) where
  balance b := by
    have hb := h.balance b
    rw [held_append]
    by_cases hself : b = r.owner
    · subst hself
      rw [Function.update_self, held_cons_self, held_nil]
      omega
    · rw [Function.update_of_ne hself, held_cons_of_ne hself, held_nil]
      exact hb
  numbers b := by
    have hb := h.numbers b
    rw [numbers_append]
    by_cases hself : b = r.owner
    · subst hself
      rw [numbers_cons_self, numbers_nil, List.length_append, List.length_singleton,
        List.range'_1_concat, ← hb, hnumber, h.next]
    · rw [numbers_cons_of_ne hself, numbers_nil, List.append_nil]
      exact hb
  next b := by
    have hb := h.next b
    rw [numbers_append]
    by_cases hself : b = r.owner
    · subst hself
      rw [Function.update_self, numbers_cons_self, numbers_nil, List.length_append,
        List.length_singleton]
      omega
    · rw [Function.update_of_ne hself, numbers_cons_of_ne hself, numbers_nil, List.append_nil]
      exact hb

theorem Covered.head {r : Reservation A}
    (h : Covered left next balance expected (r :: pending)) :
    r.number = expected r.owner ∧ r.amount ≤ balance r.owner := by
  have hbalance := h.balance r.owner
  have hnumbers := h.numbers r.owner
  rw [held_cons_self] at hbalance
  rw [numbers_cons_self, List.length_cons, List.range'_succ] at hnumbers
  exact ⟨(List.cons.inj hnumbers).1, by omega⟩

/-- The oldest promise is settled. Its owner pays no more than the amount, and nobody else
loses anything. -/
theorem Covered.settle {r : Reservation A} {balance' : A → ℕ}
    (h : Covered left next balance expected (r :: pending))
    (howner : balance r.owner ≤ balance' r.owner + r.amount)
    (hother : ∀ b, b ≠ r.owner → balance b ≤ balance' b) :
    Covered left next balance'
      (Function.update expected r.owner (expected r.owner + 1)) pending where
  balance b := by
    have hb := h.balance b
    by_cases hself : b = r.owner
    · subst hself
      rw [held_cons_self] at hb
      omega
    · rw [held_cons_of_ne hself] at hb
      exact Nat.le_trans hb (hother b hself)
  numbers b := by
    have hb := h.numbers b
    by_cases hself : b = r.owner
    · subst hself
      rw [numbers_cons_self, List.length_cons, List.range'_succ] at hb
      rw [Function.update_self]
      exact (List.cons.inj hb).2
    · rw [numbers_cons_of_ne hself] at hb
      rw [Function.update_of_ne hself]
      exact hb
  next b := by
    have hb := h.next b
    by_cases hself : b = r.owner
    · subst hself
      rw [numbers_cons_self, List.length_cons] at hb
      rw [Function.update_self]
      omega
    · rw [numbers_cons_of_ne hself] at hb
      rw [Function.update_of_ne hself]
      exact hb

end Reservation
