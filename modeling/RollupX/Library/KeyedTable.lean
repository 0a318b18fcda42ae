import Mathlib.Data.List.Nodup

/-! A table of rows with a primary key: rows are inserted unless the key is taken, changed
where the key matches, and never removed. -/

/-- Rows in the order of their insertion, no two with one key. -/
structure KeyedTable {ρ κ : Type*} (key : ρ → κ) where
  rows : List ρ
  unique : (rows.map key).Nodup

namespace KeyedTable

variable {ρ κ : Type*} {key : ρ → κ}

def empty : KeyedTable key :=
  ⟨[], by simp⟩

theorem eq_of_key_eq (t : KeyedTable key) {r r' : ρ} (hr : r ∈ t.rows) (hr' : r' ∈ t.rows)
    (hkey : key r = key r') : r = r' :=
  List.inj_on_of_nodup_map t.unique hr hr' hkey

variable [DecidableEq κ]

theorem filter_key (t : KeyedTable key) {r : ρ} (hr : r ∈ t.rows) :
    t.rows.filter (fun x => key x = key r) = [r] := by
  obtain ⟨rows, hunique⟩ := t
  induction rows with
  | nil => contradiction
  | cons x rows ih =>
    obtain ⟨hx, hrows⟩ := List.nodup_cons.mp hunique
    rcases List.mem_cons.mp hr with rfl | hr
    · have hrest : rows.filter (fun y => key y = key r) = [] := by
        refine List.filter_eq_nil_iff.mpr fun y hy hkey => hx ?_
        rw [← of_decide_eq_true hkey]
        exact List.mem_map_of_mem hy
      rw [List.filter_cons_of_pos (by simp), hrest]
    · have hne : key x ≠ key r := fun h => hx (h ▸ List.mem_map_of_mem hr)
      rw [List.filter_cons_of_neg (by simpa using hne)]
      exact ih hrows hr

/-- `SELECT … WHERE key = k`. -/
def find (t : KeyedTable key) (k : κ) : Option ρ :=
  t.rows.find? fun r => key r = k

/-- `INSERT OR IGNORE`, and whether the row was inserted. -/
def insertOrIgnore (t : KeyedTable key) (row : ρ) : Bool × KeyedTable key :=
  if h : key row ∈ t.rows.map key then (false, t)
  else (true, ⟨t.rows ++ [row], by
    rw [List.map_append, List.map_singleton]
    exact List.nodup_append'.mpr ⟨t.unique, List.nodup_singleton _,
      List.disjoint_singleton.mpr h⟩⟩)

/-- `UPDATE … WHERE key = k`, for a change that leaves the key. -/
def update (t : KeyedTable key) (k : κ) (f : ρ → ρ) (hf : ∀ r, key (f r) = key r) :
    KeyedTable key :=
  ⟨t.rows.map fun r => if key r = k then f r else r, by
    have hkeys : (key ∘ fun r => if key r = k then f r else r) = key := by
      funext r
      simp only [Function.comp_apply]
      split
      · exact hf r
      · rfl
    rw [List.map_map, hkeys]
    exact t.unique⟩

theorem mem_update {t : KeyedTable key} {k : κ} {f : ρ → ρ} {hf : ∀ r, key (f r) = key r}
    {row : ρ} (h : row ∈ (t.update k f hf).rows) :
    (row ∈ t.rows ∧ key row ≠ k) ∨ ∃ r ∈ t.rows, key r = k ∧ row = f r := by
  obtain ⟨r, hr, rfl⟩ := List.mem_map.mp h
  by_cases hk : key r = k
  · exact .inr ⟨r, hr, hk, by simp [hk]⟩
  · exact .inl (by simp [hk, hr])

theorem mem_update_of_ne {t : KeyedTable key} {k : κ} {f : ρ → ρ} {hf : ∀ r, key (f r) = key r}
    {r : ρ} (hr : r ∈ t.rows) (hne : key r ≠ k) : r ∈ (t.update k f hf).rows :=
  List.mem_map.mpr ⟨r, hr, by simp [hne]⟩

theorem related_update {R : ρ → ρ → Prop} (hrefl : ∀ r, R r r) {t : KeyedTable key} {k : κ}
    {f : ρ → ρ} {hf : ∀ r, key (f r) = key r} (h : ∀ r ∈ t.rows, key r = k → R r (f r)) :
    ∀ r ∈ t.rows, ∃ r' ∈ (t.update k f hf).rows, R r r' := by
  intro r hr
  refine ⟨if key r = k then f r else r, List.mem_map_of_mem hr, ?_⟩
  split
  · rename_i hk
    exact h r hr hk
  · exact hrefl r

theorem map_update {γ : Type*} (g : ρ → γ) {t : KeyedTable key} {k : κ} {f : ρ → ρ}
    {hf : ∀ r, key (f r) = key r} (hg : ∀ r, g (f r) = g r) :
    (t.update k f hf).rows.map g = t.rows.map g := by
  have hsame : (g ∘ fun r => if key r = k then f r else r) = g := by
    funext r
    simp only [Function.comp_apply]
    split
    · exact hg r
    · rfl
  rw [update, List.map_map, hsame]

theorem insertOrIgnore_true {t : KeyedTable key} {row : ρ} (h : (t.insertOrIgnore row).1 = true) :
    (∀ r ∈ t.rows, key r ≠ key row) ∧ (t.insertOrIgnore row).2.rows = t.rows ++ [row] := by
  unfold insertOrIgnore at h ⊢
  split
  · rename_i hin
    simp [hin] at h
  · rename_i hout
    refine ⟨fun r hr he => hout ?_, rfl⟩
    rw [← he]
    exact List.mem_map_of_mem hr

end KeyedTable
