import Mathlib.Data.List.Induction
import Mathlib.Data.List.Perm.Basic

/-! Greedy selection from a list. Each element is accepted or deferred by a test that sees
what was accepted before it. -/

namespace Selection

variable {α : Type*}

def step (p : List α → α → Bool) (s : List α × List α) (x : α) : List α × List α :=
  if p s.1 x then (s.1 ++ [x], s.2) else (s.1, s.2 ++ [x])

def select (p : List α → α → Bool) (xs : List α) : List α × List α :=
  xs.foldl (step p) ([], [])

variable {p : List α → α → Bool} {xs : List α}

theorem select_append_singleton (p : List α → α → Bool) (xs : List α) (x : α) :
    select p (xs ++ [x]) = step p (select p xs) x := by
  rw [select, select, List.foldl_append]
  rfl

theorem foldl_step_invariant {I : List α → List α × List α → Prop}
    (accept : ∀ seen a d x, I seen (a, d) → p a x = true → I (seen ++ [x]) (a ++ [x], d))
    (defer : ∀ seen a d x, I seen (a, d) → p a x = false → I (seen ++ [x]) (a, d ++ [x]))
    (hnil : I [] ([], [])) (xs : List α) : I xs (select p xs) := by
  induction xs using List.reverseRecOn with
  | nil => exact hnil
  | append_singleton xs x ih =>
    rw [select_append_singleton, step]
    cases hx : p (select p xs).1 x with
    | true => exact accept xs _ _ x ih hx
    | false => exact defer xs _ _ x ih hx

theorem select_perm (p : List α → α → Bool) (xs : List α) :
    ((select p xs).1 ++ (select p xs).2).Perm xs := by
  refine foldl_step_invariant (I := fun seen s => (s.1 ++ s.2).Perm seen) ?_ ?_ (.refl _) xs
  · intro seen a d x h _
    have hmove : (a ++ [x] ++ d).Perm (a ++ d ++ [x]) := by
      rw [List.append_assoc, List.append_assoc]
      exact List.perm_append_comm.append_left a
    exact hmove.trans (h.append_right [x])
  · intro seen a d x h _
    rw [← List.append_assoc]
    exact h.append_right [x]

theorem select_sublist (p : List α → α → Bool) (xs : List α) :
    (select p xs).1.Sublist xs ∧ (select p xs).2.Sublist xs := by
  refine foldl_step_invariant (I := fun seen s => s.1.Sublist seen ∧ s.2.Sublist seen)
    ?_ ?_ ⟨.slnil, .slnil⟩ xs
  · intro seen a d x h _
    exact ⟨h.1.append_right [x], h.2.trans (List.sublist_append_left seen [x])⟩
  · intro seen a d x h _
    exact ⟨h.1.trans (List.sublist_append_left seen [x]), h.2.append_right [x]⟩

theorem of_accepted_eq_nil (h : (select p xs).1 = []) : ∀ x ∈ xs, p [] x = false := by
  refine foldl_step_invariant (I := fun seen s => s.1 = [] → ∀ x ∈ seen, p [] x = false)
    ?_ ?_ (by simp) xs h
  · intro seen a d x _ _ hnil
    simp at hnil
  · intro seen a d x ih hx hnil
    have ha : a = [] := hnil
    rw [List.forall_mem_append]
    exact ⟨ih ha, by simpa [ha] using hx⟩

theorem accepted_eq_nil_iff : (select p xs).1 = [] ↔ ∀ x ∈ xs, p [] x = false := by
  refine ⟨of_accepted_eq_nil, ?_⟩
  refine foldl_step_invariant (I := fun seen s => (∀ x ∈ seen, p [] x = false) → s.1 = [])
    ?_ ?_ (fun _ => rfl) xs
  · intro seen a d x ih hx hfails
    rw [List.forall_mem_append, List.forall_mem_singleton] at hfails
    have ha : a = [] := ih hfails.1
    rw [ha, hfails.2] at hx
    cases hx
  · intro seen a d x ih _ hfails
    exact ih (List.forall_mem_append.mp hfails).1

theorem accepted_isPrefix (p : List α → α → Bool) (xs ys : List α) :
    (select p xs).1 <+: (select p (xs ++ ys)).1 := by
  induction ys using List.reverseRecOn with
  | nil => simp
  | append_singleton ys y ih =>
    rw [← List.append_assoc, select_append_singleton, step]
    split
    · exact ih.trans (List.prefix_append _ _)
    · exact ih

theorem exists_tested (p : List α → α → Bool) (xs : List α) :
    (∀ x ∈ (select p xs).1, ∃ before after,
      xs = before ++ x :: after ∧ p (select p before).1 x = true) ∧
    ∀ x ∈ (select p xs).2, ∃ before after,
      xs = before ++ x :: after ∧ p (select p before).1 x = false := by
  induction xs using List.reverseRecOn with
  | nil => simp [select]
  | append_singleton xs last ih =>
    have hgrow : ∀ x b, (∃ before after, xs = before ++ x :: after ∧
        p (select p before).1 x = b) → ∃ before after,
          xs ++ [last] = before ++ x :: after ∧ p (select p before).1 x = b := by
      rintro x b ⟨before, after, rfl, hp⟩
      exact ⟨before, after ++ [last], by simp, hp⟩
    rw [select_append_singleton, step]
    split
    · rename_i hp
      refine ⟨fun x hx => ?_, fun x hx => hgrow x false (ih.2 x hx)⟩
      rcases List.mem_append.mp hx with hx | hx
      · exact hgrow x true (ih.1 x hx)
      · obtain rfl := List.mem_singleton.mp hx
        exact ⟨xs, [], rfl, hp⟩
    · rename_i hp
      refine ⟨fun x hx => hgrow x true (ih.1 x hx), fun x hx => ?_⟩
      rcases List.mem_append.mp hx with hx | hx
      · exact hgrow x false (ih.2 x hx)
      · obtain rfl := List.mem_singleton.mp hx
        exact ⟨xs, [], rfl, by simpa using hp⟩

/-- An accepted element stands before a deferred one, or the selection has passed over the
deferred one and accepted the other after it. -/
theorem before_or_passed {x y : α} (hx : x ∈ (select p xs).1) (hy : y ∈ (select p xs).2) :
    (∃ before between after, xs = before ++ x :: (between ++ y :: after)) ∨
      ∃ before between after, xs = before ++ y :: (between ++ x :: after) ∧
        p (select p before).1 y = false ∧
        p (select p (before ++ y :: between)).1 x = true := by
  obtain ⟨l, r, hl, hpx⟩ := (exists_tested p xs).1 x hx
  obtain ⟨l', r', hl', hpy⟩ := (exists_tested p xs).2 y hy
  rcases List.append_eq_append_iff.mp (hl.symm.trans hl') with ⟨m, rfl, hm⟩ | ⟨m, rfl, hm⟩
  · cases m with
    | nil =>
      obtain ⟨rfl, -⟩ := List.cons.inj hm
      rw [List.append_nil, hpx] at hpy
      cases hpy
    | cons z m =>
      obtain ⟨rfl, rfl⟩ := List.cons.inj hm
      exact .inl ⟨l, m, r', hl⟩
  · cases m with
    | nil =>
      obtain ⟨rfl, -⟩ := List.cons.inj hm
      rw [List.append_nil, hpy] at hpx
      cases hpx
    | cons z m =>
      obtain ⟨rfl, rfl⟩ := List.cons.inj hm
      exact .inr ⟨l', m, r, hl', hpy, hpx⟩

/-- Of the elements with `q`, which alone can pass, the first `n` pass after all that stand
before them, and the others fail after these. Then the first `n` are accepted. -/
theorem select_eq_take_drop {q : α → Bool} {zs : List α} {n : ℕ}
    (hq : ∀ a x, p a x = true → q x = true)
    (hfront : ∀ ys x, ys ++ [x] <+: zs → ys.length < n → p ys x = true)
    (hback : ∀ ys x, ys ++ [x] <+: zs → n ≤ ys.length → p (zs.take n) x = false)
    (hxs : xs.filter q <+: zs) :
    (select p xs).1 = (xs.filter q).take n ∧
      (select p xs).2.filter q = (xs.filter q).drop n := by
  induction xs using List.reverseRecOn with
  | nil => simp [select]
  | append_singleton xs x ih =>
    rw [List.filter_append] at hxs ⊢
    obtain ⟨haccepted, hdeferred⟩ := ih ((List.prefix_append _ _).trans hxs)
    rw [select_append_singleton, step]
    by_cases hx : q x = true
    · rw [List.filter_singleton, hx, cond_true] at hxs ⊢
      rcases Nat.lt_or_ge (xs.filter q).length n with hlt | hge
      · have hle := Nat.le_of_lt hlt
        have hle' : (xs.filter q ++ [x]).length ≤ n := by
          rw [List.length_append]
          exact hlt
        rw [List.take_of_length_le hle] at haccepted
        rw [List.drop_of_length_le hle] at hdeferred
        rw [haccepted, hfront _ _ hxs hlt, if_pos rfl, List.take_of_length_le hle',
          List.drop_of_length_le hle']
        exact ⟨rfl, hdeferred⟩
      · obtain ⟨rest, hrest⟩ := (List.prefix_append _ _).trans hxs
        have htake : (select p xs).1 = zs.take n := by
          rw [haccepted, ← hrest, List.take_append_of_le_length hge]
        rw [htake, hback _ _ hxs hge, ← htake]
        simp [haccepted, hdeferred, hx, List.take_append_of_le_length hge,
          List.drop_append_of_le_length hge]
    · have hfails : ¬p (select p xs).1 x = true := fun hpass => hx (hq _ _ hpass)
      rw [if_neg hfails]
      simp [hx, haccepted, hdeferred]

theorem select_eq_all (h : ∀ before x after, xs = before ++ x :: after → p before x = true) :
    select p xs = (xs, []) := by
  induction xs using List.reverseRecOn with
  | nil => rfl
  | append_singleton xs last ih =>
    have hxs : select p xs = (xs, []) := by
      refine ih fun before x after hsplit => h before x (after ++ [last]) ?_
      rw [hsplit, List.append_assoc, List.cons_append]
    rw [select_append_singleton, hxs, step, if_pos (h xs last [] rfl)]

end Selection
