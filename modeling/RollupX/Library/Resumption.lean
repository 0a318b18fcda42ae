import Mathlib.Data.List.Perm.Basic
import Mathlib.Order.Lattice

/-! Reading a history in several sessions, each of which starts at a position where the one before
it is said to have stopped. Elements may share a position. -/

namespace Resumption

variable {α β : Type*} [LinearOrder β] {pos : α → β} {history taken rest : List α} {cursor : β}

/-- Between two sessions: exactly what lies before the cursor was taken. -/
def Settled (pos : α → β) (history taken : List α) (cursor : β) : Prop :=
  taken.Perm (history.filter fun e => pos e < cursor)

/-- In a session: what was not taken is still to come. -/
def Pending (history taken rest : List α) : Prop :=
  (taken ++ rest).Perm history

theorem settled_start (h : ∀ e ∈ history, cursor ≤ pos e) : Settled pos history [] cursor := by
  have hnone : (history.filter fun e => pos e < cursor) = [] := by
    simpa [List.filter_eq_nil_iff] using h
  rw [Settled, hnone]

theorem Settled.pending (h : Settled pos history taken cursor)
    (hrest : rest.Perm (history.filter fun e => cursor ≤ pos e)) : Pending history taken rest := by
  have hsplit : (history.filter fun e => !decide (pos e < cursor)) =
      history.filter fun e => cursor ≤ pos e := by
    simp only [← decide_not, not_lt]
  exact (h.append hrest).trans (hsplit ▸ List.filter_append_perm _ history)

theorem Pending.take {e : α} {rest' : List α} (h : Pending history taken rest)
    (hrest : rest.Perm (e :: rest')) : Pending history (taken ++ [e]) rest' := by
  rw [Pending, List.append_assoc]
  exact ((hrest.symm.append_left taken)).trans h

theorem Pending.settled (h : Pending history taken rest) (htaken : ∀ e ∈ taken, pos e < cursor)
    (hrest : ∀ e ∈ rest, cursor ≤ pos e) : Settled pos history taken cursor := by
  have hfilter := h.filter fun e => pos e < cursor
  have hall : (taken.filter fun e => pos e < cursor) = taken := by
    simpa [List.filter_eq_self] using htaken
  have hnone : (rest.filter fun e => pos e < cursor) = [] := by
    simpa [List.filter_eq_nil_iff] using hrest
  rwa [List.filter_append, hall, hnone, List.append_nil] at hfilter

/-- A session has delivered as many elements as lie between its start and the cursor, and none of
the rest lies there. So what was taken does. -/
theorem Pending.before_of_countP {start : β} (h : Pending history taken rest)
    (hle : start ≤ cursor) (hrest : ∀ e ∈ rest, cursor ≤ pos e)
    (hcount : history.countP (fun e => start ≤ pos e ∧ pos e < cursor) + rest.length =
      history.countP fun e => start ≤ pos e) : ∀ e ∈ taken, pos e < cursor := by
  have hsplit : history.countP (fun e => start ≤ pos e) =
      history.countP (fun e => start ≤ pos e ∧ pos e < cursor) +
        history.countP fun e => cursor ≤ pos e := by
    rw [List.countP_eq_countP_filter_add _ _ fun e => pos e < cursor, List.countP_filter,
      List.countP_filter]
    congr 1
    · simp only [Bool.decide_and]
    · refine List.countP_congr fun e _ => ?_
      simpa using fun hc => hle.trans hc
  have hboth := h.countP_eq fun e => cursor ≤ pos e
  have hall : rest.countP (fun e => cursor ≤ pos e) = rest.length := by
    simpa [List.countP_eq_length] using hrest
  rw [List.countP_append, hall] at hboth
  have hnone : taken.countP (fun e => cursor ≤ pos e) = 0 := by omega
  simpa [List.countP_eq_zero] using hnone

theorem Pending.perm (h : Pending history taken []) : taken.Perm history := by
  rwa [Pending, List.append_nil] at h

end Resumption
