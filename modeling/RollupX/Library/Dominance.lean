import Mathlib.Order.WellFoundedSet

/-! Undominated elements of a list under a strict order, and the strict order of pairs that are
compared in both places. -/

namespace Dominance

section Undominated

variable {α : Type*} {r : α → α → Prop} {l : List α} {a : α}

/-- No element of the list dominates `a`. -/
def Undominated (r : α → α → Prop) (l : List α) (a : α) : Prop :=
  ∀ b ∈ l, ¬r b a

instance [DecidableRel r] (l : List α) : DecidablePred (Undominated r l) :=
  fun a => inferInstanceAs (Decidable (∀ b ∈ l, ¬r b a))

/-- Dominance cannot descend for ever in a list, so it ends at an undominated element. -/
theorem exists_undominated_of_not [IsStrictOrder α r] (ha : a ∈ l) (h : ¬Undominated r l a) :
    ∃ b ∈ l, Undominated r l b ∧ r b a := by
  have hfounded : {b | b ∈ l}.WellFoundedOn r := (List.finite_toSet l).wellFoundedOn
  refine hfounded.induction (P := fun a => ¬Undominated r l a → ∃ b ∈ l, Undominated r l b ∧ r b a)
    ha ?_ h
  intro a _ ih h
  obtain ⟨b, hb, hba⟩ : ∃ b ∈ l, r b a := by simpa [Undominated] using h
  by_cases hundominated : Undominated r l b
  · exact ⟨b, hb, hundominated, hba⟩
  · obtain ⟨c, hc, hcundominated, hcb⟩ := ih b hb hba hundominated
    exact ⟨c, hc, hcundominated, trans_of r hcb hba⟩

end Undominated

section Both

variable {α β : Type*} (r : α → α → Prop) (s : β → β → Prop)

/-- At least as good in both places, and not the same. -/
def Both (p q : α × β) : Prop :=
  r p.1 q.1 ∧ s p.2 q.2 ∧ p ≠ q

instance [DecidableEq α] [DecidableEq β] [DecidableRel r] [DecidableRel s] :
    DecidableRel (Both r s) :=
  fun p q => inferInstanceAs (Decidable (r p.1 q.1 ∧ s p.2 q.2 ∧ p ≠ q))

instance [IsPartialOrder α r] [IsPartialOrder β s] : IsStrictOrder (α × β) (Both r s) where
  irrefl _ h := h.2.2 rfl
  trans p q t hpq hqt := by
    refine ⟨trans_of r hpq.1 hqt.1, trans_of s hpq.2.1 hqt.2.1, ?_⟩
    rintro rfl
    exact hpq.2.2 (Prod.ext (antisymm hpq.1 hqt.1) (antisymm hpq.2.1 hqt.2.1))

theorem both_iff [IsPartialOrder α r] [IsPartialOrder β s] {p q : α × β} :
    Both r s p q ↔ r p.1 q.1 ∧ s p.2 q.2 ∧ (¬r q.1 p.1 ∨ ¬s q.2 p.2) := by
  refine and_congr_right fun hr => and_congr_right fun hs => ?_
  rw [← not_and_or, not_iff_not]
  constructor
  · rintro rfl
    exact ⟨hr, hs⟩
  · rintro ⟨hr', hs'⟩
    exact Prod.ext (antisymm hr hr') (antisymm hs hs')

end Both

end Dominance
