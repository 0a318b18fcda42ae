import Mathlib.Data.List.Perm.Subperm
import Mathlib.Data.List.Nodup

/-! Items that pass through one at a time. An item is fed and taken up, it is committed, and a
committed item may become final. Nothing is taken up before all that was fed earlier is final. -/

namespace Pipeline

variable {α : Type*}

/-- What was taken up and is not committed is the first of the items that are left, the ones still
to be done are among those, and at most the last committed item is not final. -/
structure InOrder (fed taken committed final todo : List α) : Prop where
  distinct : fed.Nodup
  outstanding : ∃ rest, fed = committed ++ rest ∧
    ∀ y ∈ taken, y ∉ committed → rest.head? = some y ∧ final = committed
  almost : final = committed ∨ ∃ last, committed = final ++ [last]
  known : committed ++ todo ⊆ taken
  once : (committed ++ todo).Nodup

theorem InOrder.nil : InOrder ([] : List α) [] [] [] [] :=
  ⟨.nil, ⟨[], rfl, by simp⟩, .inl rfl, List.nil_subset _, .nil⟩

variable {fed taken committed final todo todo' before after : List α} {x : α}

theorem InOrder.committed_isPrefix (h : InOrder fed taken committed final todo) :
    committed <+: fed := by
  obtain ⟨rest, hfed, -⟩ := h.outstanding
  exact ⟨rest, hfed.symm⟩

theorem InOrder.final_isPrefix_committed (h : InOrder fed taken committed final todo) :
    final <+: committed := by
  rcases h.almost with hsame | ⟨last, hlast⟩
  · exact ⟨[], by rw [hsame, List.append_nil]⟩
  · exact ⟨[last], hlast.symm⟩

theorem InOrder.final_isPrefix (h : InOrder fed taken committed final todo) : final <+: fed :=
  h.final_isPrefix_committed.trans h.committed_isPrefix

theorem InOrder.committed_subset (h : InOrder fed taken committed final todo) :
    committed ⊆ taken :=
  (List.append_subset.mp h.known).1

theorem InOrder.drop (h : InOrder fed taken committed final todo) (hsub : todo'.Sublist todo) :
    InOrder fed taken committed final todo' where
  distinct := h.distinct
  outstanding := h.outstanding
  almost := h.almost
  known := List.Subset.trans (hsub.append_left _).subset h.known
  once := h.once.sublist (hsub.append_left _)

theorem InOrder.resume (h : InOrder fed taken committed final todo) (hnodup : todo'.Nodup)
    (htaken : todo' ⊆ taken) (hopen : ∀ y ∈ todo', y ∉ committed) :
    InOrder fed taken committed final todo' where
  distinct := h.distinct
  outstanding := h.outstanding
  almost := h.almost
  known := List.append_subset.mpr ⟨h.committed_subset, htaken⟩
  once := List.nodup_append'.mpr ⟨(List.nodup_append'.mp h.once).1, hnodup,
    fun _ hcommitted htodo => hopen _ htodo hcommitted⟩

theorem InOrder.feed (h : InOrder fed taken committed final todo) (hnew : x ∉ fed) :
    InOrder (fed ++ [x]) taken committed final todo := by
  obtain ⟨rest, hfed, hrest⟩ := h.outstanding
  refine ⟨?_, ⟨rest ++ [x], by rw [hfed, List.append_assoc], ?_⟩, h.almost, h.known, h.once⟩
  · exact List.nodup_append'.mpr ⟨h.distinct, List.nodup_singleton x,
      List.disjoint_singleton.mpr hnew⟩
  · intro y hy hopen
    obtain ⟨hhead, hfinal⟩ := hrest y hy hopen
    exact ⟨by rw [List.head?_append, hhead]; rfl, hfinal⟩

theorem InOrder.committed_eq (h : InOrder fed taken committed final todo)
    (hfed : fed = before ++ x :: after) (hopen : x ∉ committed)
    (hall : ∀ y ∈ before, y ∈ final) : committed = before ∧ final = before := by
  have hbefore : before ⊆ final := hall
  have hnodup : before.Nodup := (List.nodup_append'.mp (hfed ▸ h.distinct)).1
  have hle : committed <+: before := by
    have hsplit : committed <+: before ++ x :: after := hfed ▸ h.committed_isPrefix
    rcases List.prefix_or_prefix_of_prefix hsplit (List.prefix_append ..) with hle | ⟨rest, hrest⟩
    · exact hle
    · rw [← hrest, List.prefix_append_right_inj] at hsplit
      cases rest with
      | nil => exact ⟨[], by rw [List.append_nil, ← hrest, List.append_nil]⟩
      | cons y rest =>
        obtain ⟨rfl, -⟩ := List.cons_prefix_cons.mp hsplit
        exact absurd (by rw [← hrest]; simp) hopen
  have hfinal : final <+: before := h.final_isPrefix_committed.trans hle
  have hlength : before.length ≤ final.length := (List.subperm_of_subset hnodup hbefore).length_le
  have hsame : final = before := hfinal.eq_of_length_le hlength
  have hcommitted := h.final_isPrefix_committed
  rw [hsame] at hcommitted
  exact ⟨hle.eq_of_length_le hcommitted.length_le, hsame⟩

theorem InOrder.take (h : InOrder fed taken committed final todo)
    (hfed : fed = before ++ x :: after) (hnew : x ∉ taken) (hall : ∀ y ∈ before, y ∈ final) :
    InOrder fed (taken ++ [x]) committed final [x] := by
  have hopen : x ∉ committed := fun hmem => hnew (h.committed_subset hmem)
  obtain ⟨hcommitted, hfinal⟩ := h.committed_eq hfed hopen hall
  obtain ⟨rest, hfed', hrest⟩ := h.outstanding
  have hhead : rest.head? = some x := by
    rw [hfed, hcommitted, List.append_cancel_left_eq] at hfed'
    rw [← hfed', List.head?_cons]
  refine ⟨h.distinct, ⟨rest, hfed', fun y hy hy' => ⟨?_, by rw [hfinal, hcommitted]⟩⟩, h.almost,
    ?_, ?_⟩
  · rcases List.mem_append.mp hy with hold | hnew
    · exact (hrest y hold hy').1
    · rw [List.mem_singleton.mp hnew, hhead]
  · exact List.append_subset.mpr ⟨List.subset_append_of_subset_left _ h.committed_subset,
      List.subset_append_right _ _⟩
  · exact List.nodup_append'.mpr ⟨(List.nodup_append'.mp h.once).1, List.nodup_singleton x,
      List.disjoint_singleton.mpr hopen⟩

theorem InOrder.commit (h : InOrder fed taken committed final (x :: todo)) {final' : List α}
    (hfinal' : final' = final ∨ final' = final ++ [x]) :
    InOrder fed taken (committed ++ [x]) final' todo := by
  have hopen : x ∉ committed := fun hmem =>
    (List.nodup_append'.mp h.once).2.2 hmem (List.mem_cons_self ..)
  obtain ⟨rest, hfed, hrest⟩ := h.outstanding
  obtain ⟨hhead, hsame⟩ := hrest x (h.known (by simp)) hopen
  obtain ⟨rest, rfl⟩ := List.head?_eq_some_iff.mp hhead
  refine ⟨h.distinct, ⟨rest, by rw [hfed, List.append_assoc]; rfl, ?_⟩, ?_, ?_, ?_⟩
  · intro y hy hy'
    rw [List.mem_append, not_or] at hy'
    obtain ⟨hfirst, -⟩ := hrest y hy hy'.1
    rw [List.head?_cons, Option.some.injEq] at hfirst
    exact absurd (List.mem_singleton.mpr hfirst.symm) hy'.2
  · rcases hfinal' with rfl | rfl
    · exact .inr ⟨x, by rw [hsame]⟩
    · exact .inl (by rw [hsame])
  · rw [List.append_assoc]
    exact h.known
  · rw [List.append_assoc]
    exact h.once

end Pipeline
