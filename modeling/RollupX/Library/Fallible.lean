import Mathlib.Data.List.Forall2

/-! How computations in `Except` and `Option` end. A chain ends well if and only if each of its
links does, and a list is converted if and only if each of its elements is. -/

namespace Fallible

variable {ε α β : Type}

theorem bind_ok_iff {x : Except ε α} {f : α → Except ε β} {b : β} :
    (x >>= f) = .ok b ↔ ∃ a, x = .ok a ∧ f a = .ok b := by
  cases x <;> simp [bind, Except.bind]

theorem bind_error_iff {x : Except ε α} {f : α → Except ε β} {e : ε} :
    (x >>= f) = .error e ↔ x = .error e ∨ ∃ a, x = .ok a ∧ f a = .error e := by
  cases x <;> simp [bind, Except.bind]

theorem exists_bind_ok_iff {x : Except ε α} {f : α → Except ε β} :
    (∃ b, (x >>= f) = .ok b) ↔ ∃ a, x = .ok a ∧ ∃ b, f a = .ok b := by
  simp only [bind_ok_iff]
  exact ⟨fun ⟨b, a, ha, hb⟩ => ⟨a, ha, b, hb⟩, fun ⟨a, ha, b, hb⟩ => ⟨b, a, ha, hb⟩⟩

theorem mapError_ok_iff {ε' : Type} {x : Except ε α} {f : ε → ε'} {a : α} :
    x.mapError f = .ok a ↔ x = .ok a := by
  cases x <;> simp [Except.mapError]

theorem map_ok_iff {x : Except ε α} {f : α → β} {b : β} :
    x.map f = .ok b ↔ ∃ a, x = .ok a ∧ f a = b := by
  cases x <;> simp [Except.map]

theorem ite_ok_iff {p : Prop} [Decidable p] {a b : α} {e : ε} :
    (if p then Except.ok a else .error e) = .ok b ↔ p ∧ a = b := by
  by_cases h : p <;> simp [h]

theorem exists_ite_ok_iff {p : Prop} [Decidable p] {a : α} {e : ε} :
    (∃ y, (if p then Except.ok a else .error e) = .ok y) ↔ p := by
  simp only [ite_ok_iff, exists_and_left, exists_eq', and_true]

theorem mapM_ok_iff (f : α → Except ε β) (xs : List α) (ys : List β) :
    xs.mapM f = .ok ys ↔ List.Forall₂ (fun x y => f x = .ok y) xs ys := by
  induction xs generalizing ys with
  | nil => simp [pure, Except.pure, eq_comm]
  | cons x xs ih =>
    rw [List.mapM_cons, bind_ok_iff, List.forall₂_cons_left_iff]
    constructor
    · rintro ⟨y, hy, h⟩
      obtain ⟨rest, hrest, h⟩ := bind_ok_iff.mp h
      cases h
      exact ⟨y, rest, hy, (ih rest).mp hrest, rfl⟩
    · rintro ⟨y, rest, hy, hrest, rfl⟩
      exact ⟨y, hy, bind_ok_iff.mpr ⟨rest, (ih rest).mpr hrest, rfl⟩⟩

theorem exists_mapM_ok_iff (f : α → Except ε β) (xs : List α) :
    (∃ ys, xs.mapM f = .ok ys) ↔ ∀ x ∈ xs, ∃ y, f x = .ok y := by
  simp only [mapM_ok_iff]
  induction xs with
  | nil => simp
  | cons x xs ih =>
    rw [List.forall_mem_cons, ← ih]
    constructor
    · rintro ⟨_, h⟩
      cases h with
      | cons hy hrest => exact ⟨⟨_, hy⟩, _, hrest⟩
    · rintro ⟨⟨y, hy⟩, ys, hys⟩
      exact ⟨y :: ys, .cons hy hys⟩

theorem mapM_some_iff (f : α → Option β) (xs : List α) (ys : List β) :
    xs.mapM f = some ys ↔ List.Forall₂ (fun x y => f x = some y) xs ys := by
  induction xs generalizing ys with
  | nil => simp [eq_comm]
  | cons x xs ih =>
    rw [List.mapM_cons, List.forall₂_cons_left_iff]
    constructor
    · intro h
      obtain ⟨y, hy, h⟩ := Option.bind_eq_some_iff.mp h
      obtain ⟨rest, hrest, h⟩ := Option.bind_eq_some_iff.mp h
      cases h
      exact ⟨y, rest, hy, (ih rest).mp hrest, rfl⟩
    · rintro ⟨y, rest, hy, hrest, rfl⟩
      rw [hy, (ih rest).mpr hrest]
      rfl

theorem isSome_mapM_iff (f : α → Option β) (xs : List α) :
    (xs.mapM f).isSome = true ↔ ∀ x ∈ xs, (f x).isSome = true := by
  induction xs with
  | nil => simp
  | cons x xs ih =>
    rw [List.mapM_cons, List.forall_mem_cons, ← ih]
    cases f x with
    | none => simp
    | some y => cases xs.mapM f <;> simp

end Fallible

namespace List

theorem Forall₂.exists_getElem? {α β : Type*} {R : α → β → Prop} {xs : List α} {ys : List β}
    (h : Forall₂ R xs ys) {i : ℕ} {x : α} (hi : xs[i]? = some x) :
    ∃ y, ys[i]? = some y ∧ R x y := by
  induction h generalizing i with
  | nil => cases hi
  | cons hhead _ ih =>
    cases i with
    | zero =>
      cases hi
      exact ⟨_, rfl, hhead⟩
    | succ i => exact ih hi

end List
