import Mathlib.Algebra.BigOperators.Group.List.Lemmas
import Mathlib.Algebra.GroupWithZero.Nat
import Mathlib.Data.List.Perm.Basic
import Mathlib.Data.List.Sort
import Mathlib.Logic.Function.Basic

/-! Merging queues. A merge takes the head of one of the queues again and again until all
are empty. Whatever rule chooses the queue, each keeps its order. -/

namespace Merge

variable {K α : Type*} [DecidableEq K]

/-- The list is a merge of the queues. -/
inductive Merges : (K → List α) → List α → Prop where
  | nil {q : K → List α} : (∀ k, q k = []) → Merges q []
  | cons {q : K → List α} {k : K} {x : α} {rest xs : List α} : q k = x :: rest →
      Merges (Function.update q k rest) xs → Merges q (x :: xs)

variable {q : K → List α} {f : α → K} {xs ys : List α}

/-- `f` gives the key of an element. Where each element stands in the queue of its key, the
part of the merge for a key is its queue. -/
theorem Merges.filter_eq (h : Merges q xs) (hq : ∀ k, ∀ x ∈ q k, f x = k) (k : K) :
    xs.filter (fun x => f x = k) = q k := by
  induction h with
  | nil hempty => rw [hempty k, List.filter_nil]
  | @cons q head x rest xs hhead _ ih =>
    have hx : f x = head := hq head x (by rw [hhead]; exact List.mem_cons_self)
    have hrest : ∀ k, ∀ y ∈ Function.update q head rest k, f y = k := by
      intro k y hy
      rcases eq_or_ne k head with rfl | hne
      · rw [Function.update_self] at hy
        exact hq k y (by rw [hhead]; exact List.mem_cons_of_mem x hy)
      · rw [Function.update_of_ne hne] at hy
        exact hq k y hy
    rcases eq_or_ne k head with rfl | hne
    · rw [List.filter_cons_of_pos (by simpa using hx), ih hrest, Function.update_self, hhead]
    · rw [List.filter_cons_of_neg (by simpa [hx] using hne.symm), ih hrest,
        Function.update_of_ne hne]

theorem Merges.exists_mem (h : Merges q xs) {x : α} (hx : x ∈ xs) : ∃ k, x ∈ q k := by
  induction h with
  | nil => cases hx
  | @cons q head first rest xs hhead _ ih =>
    rcases List.mem_cons.mp hx with rfl | hx
    · exact ⟨head, by rw [hhead]; exact List.mem_cons_self⟩
    · obtain ⟨k, hk⟩ := ih hx
      rcases eq_or_ne k head with rfl | hne
      · rw [Function.update_self] at hk
        exact ⟨k, by rw [hhead]; exact List.mem_cons_of_mem first hk⟩
      · rw [Function.update_of_ne hne] at hk
        exact ⟨k, hk⟩

/-- A merge that takes, each time, a head that the head of no other queue beats. -/
inductive Greedy (beats : α → α → Prop) : (K → List α) → List α → Prop where
  | nil {q : K → List α} : (∀ k, q k = []) → Greedy beats q []
  | cons {q : K → List α} {k : K} {x : α} {rest xs : List α} : q k = x :: rest →
      (∀ other y ys, other ≠ k → q other = y :: ys → ¬beats y x) →
      Greedy beats (Function.update q k rest) xs → Greedy beats q (x :: xs)

variable {beats : α → α → Prop}

theorem Greedy.merges (h : Greedy beats q xs) : Merges q xs := by
  induction h with
  | nil hempty => exact .nil hempty
  | cons hhead _ _ ih => exact .cons hhead ih

theorem Greedy.not_beats (h : Greedy beats q xs) (hq : ∀ k, ∀ x ∈ q k, f x = k)
    {before after : List α} {x y : α} {k : K} (hxs : xs = before ++ x :: after)
    (hk : k ≠ f x) (hy : (after.filter fun z => f z = k).head? = some y) : ¬beats y x := by
  induction h generalizing before with
  | nil => simp at hxs
  | @cons q head first rest xs hhead hbest hrest ih =>
    have hfirst : f first = head := hq head first (by rw [hhead]; exact List.mem_cons_self)
    have hq' : ∀ k, ∀ x ∈ Function.update q head rest k, f x = k := by
      rw [Function.forall_update_iff q fun k txs => ∀ x ∈ txs, f x = k]
      refine ⟨fun x hx => hq head x ?_, fun k _ => hq k⟩
      rw [hhead]
      exact List.mem_cons_of_mem first hx
    cases before with
    | nil =>
      obtain ⟨rfl, rfl⟩ := List.cons.inj hxs
      rw [hfirst] at hk
      rw [hrest.merges.filter_eq hq', Function.update_of_ne hk] at hy
      obtain ⟨ys, hys⟩ := List.head?_eq_some_iff.mp hy
      exact hbest k y ys hk hys
    | cons z before => exact ih hq' (List.cons.inj hxs).2

/-- A merge that follows a rank, of queues that are in the order of the rank, is in the order
of the rank. -/
theorem Greedy.pairwise {β : Type*} [Preorder β] {rank : α → β} (h : Greedy beats q xs)
    (hbeats : ∀ x y, ¬beats y x → rank x ≤ rank y)
    (hq : ∀ k, (q k).Pairwise fun x y => rank x ≤ rank y) :
    xs.Pairwise fun x y => rank x ≤ rank y := by
  induction h with
  | nil => exact .nil
  | @cons q head x rest xs hhead hbest hrest ih =>
    have hsorted := hq head
    rw [hhead, List.pairwise_cons] at hsorted
    refine .cons (fun z hz => ?_) (ih ?_)
    · obtain ⟨k, hk⟩ := hrest.merges.exists_mem hz
      rcases eq_or_ne k head with rfl | hne
      · rw [Function.update_self] at hk
        exact hsorted.1 z hk
      · rw [Function.update_of_ne hne] at hk
        have hqk := hq k
        cases hys : q k with
        | nil => simp [hys] at hk
        | cons y ys =>
          have hxy := hbeats x y (hbest k y ys hne hys)
          rw [hys, List.pairwise_cons] at hqk
          rw [hys] at hk
          rcases List.mem_cons.mp hk with rfl | hk
          · exact hxy
          · exact hxy.trans (hqk.1 z hk)
    · rw [Function.forall_update_iff q fun _ txs => txs.Pairwise fun x y => rank x ≤ rank y]
      exact ⟨hsorted.2, fun k _ => hq k⟩

theorem perm_of_filter_perm
    (h : ∀ k, (xs.filter fun x => f x = k).Perm (ys.filter fun x => f x = k)) :
    xs.Perm ys := by
  classical
  rw [List.perm_iff_count]
  intro a
  have hcount := (h (f a)).count_eq a
  rwa [List.count_filter (by simp), List.count_filter (by simp)] at hcount

theorem sum_length_filter (f : α → K) (xs : List α) :
    ((xs.map f).dedup.map fun k => (xs.filter fun x => f x = k).length).sum =
      xs.length := by
  have hcount : ∀ k, (xs.filter fun x => f x = k).length = (xs.map f).count k := by
    intro k
    rw [List.count, List.countP_map, List.countP_eq_length_filter]
    rfl
  simp only [hcount]
  rw [List.sum_map_count_dedup_eq_length, List.length_map]

theorem pairwise_iff_filter {r : α → α → Prop} :
    xs.Pairwise (fun x y => f x = f y → r x y) ↔
      ∀ k, (xs.filter fun x => f x = k).Pairwise r := by
  constructor
  · intro h k
    rw [List.pairwise_filter]
    refine h.imp fun hr hx hy => hr ?_
    rw [of_decide_eq_true hx, of_decide_eq_true hy]
  · intro h
    rw [List.pairwise_iff_forall_sublist]
    intro x y hsub hkey
    have hk := List.pairwise_filter.mp (h (f y))
    exact List.pairwise_iff_forall_sublist.mp hk hsub (by simpa using hkey) (by simp)

theorem pair_sublist_filter_iff {p : α → Bool} {x y : α} (hx : p x = true) (hy : p y = true) :
    [x, y].Sublist (xs.filter p) ↔ [x, y].Sublist xs := by
  refine ⟨fun h => h.trans List.filter_sublist, fun h => ?_⟩
  have hfilter := h.filter p
  rwa [List.filter_cons_of_pos hx, List.filter_cons_of_pos hy, List.filter_nil] at hfilter

theorem filter_eq_singleton (hkeys : (xs.map f).Nodup) {x : α} (hx : x ∈ xs) :
    (xs.filter fun y => f y = f x) = [x] := by
  have hlength : (xs.filter fun y => f y = f x).length = 1 := by
    rw [← List.countP_eq_length_filter, ← List.count_eq_one_of_mem hkeys (List.mem_map_of_mem hx),
      List.count, List.countP_map]
    rfl
  obtain ⟨y, hy⟩ := List.length_eq_one_iff.mp hlength
  have hmem : x ∈ xs.filter fun y => f y = f x := List.mem_filter.mpr ⟨hx, by simp⟩
  rw [hy] at hmem
  rw [hy, List.mem_singleton.mp hmem]

omit [DecidableEq K] in
theorem pair_sublist_map_iff (hkeys : (xs.map f).Nodup) {x y : α} (hx : x ∈ xs) (hy : y ∈ xs) :
    [f x, f y].Sublist (xs.map f) ↔ [x, y].Sublist xs := by
  refine ⟨fun h => ?_, fun h => h.map f⟩
  obtain ⟨pair, hpair, hmap⟩ := List.sublist_map_iff.mp h
  have hinj := List.inj_on_of_nodup_map hkeys
  obtain ⟨x', rest, rfl, hx', hrest⟩ := List.map_eq_cons_iff.mp hmap.symm
  obtain ⟨y', rest, rfl, hy', hrest⟩ := List.map_eq_cons_iff.mp hrest
  rw [List.map_eq_nil_iff] at hrest
  subst hrest
  rw [hinj hx (hpair.subset (by simp)) hx'.symm, hinj hy (hpair.subset (by simp)) hy'.symm]
  exact hpair

/-- A stable sort leaves the order of elements among which there is nothing to do. -/
theorem filter_insertionSort {r : α → α → Prop} [DecidableRel r] [IsTrans α r] [Std.Total r]
    {p : α → Bool} (h : (xs.filter p).Pairwise r) :
    (xs.insertionSort r).filter p = xs.filter p := by
  have hsub := (List.sublist_insertionSort h List.filter_sublist).filter p
  rw [List.filter_filter] at hsub
  simp only [Bool.and_self] at hsub
  have hlength := ((List.perm_insertionSort r xs).filter p).length_eq
  exact (hsub.eq_of_length hlength.symm).symm

end Merge
