import RollupX.Library.Run

/-! Tasks that share a state and take atomic steps in any order. A run of the pool is any
interleaving of the arrivals and of the steps of the tasks. -/

namespace Machine

variable {σ τ ι : Type*}

structure TaskPool (σ τ : Type*) where
  shared : σ
  tasks : List τ

/-- An arrival, or a step of the task at a position. -/
inductive TaskEvent (ι : Type*) where
  | spawn (input : ι)
  | advance (i : ℕ)
  deriving DecidableEq, Repr

namespace TaskPool

/-- `run` is one atomic step of a task, or `none` when it has finished. -/
def step (init : ι → τ) (run : σ → τ → Option (σ × τ)) (p : TaskPool σ τ) :
    TaskEvent ι → Option (TaskPool σ τ)
  | .spawn input => some ⟨p.shared, p.tasks ++ [init input]⟩
  | .advance i =>
    match p.tasks[i]? with
    | none => none
    | some t =>
      match run p.shared t with
      | none => none
      | some (s, t') => some ⟨s, p.tasks.set i t'⟩

def Step (init : ι → τ) (run : σ → τ → Option (σ × τ)) (p : TaskPool σ τ)
    (event : TaskEvent ι) (p' : TaskPool σ τ) : Prop :=
  p.step init run event = some p'

variable {init : ι → τ} {run : σ → τ → Option (σ × τ)} {p p' : TaskPool σ τ}

theorem step_spawn_iff {input : ι} :
    Step init run p (.spawn input) p' ↔ p' = ⟨p.shared, p.tasks ++ [init input]⟩ := by
  simp [Step, step, eq_comm]

theorem step_advance_iff {i : ℕ} :
    Step init run p (.advance i) p' ↔
      ∃ t t', p.tasks[i]? = some t ∧ run p.shared t = some (p'.shared, t') ∧
        p'.tasks = p.tasks.set i t' := by
  unfold Step step
  cases hget : p.tasks[i]? with
  | none => simp [hget]
  | some t =>
    cases hrun : run p.shared t with
    | none => simp [hget, hrun]
    | some pair =>
      obtain ⟨s, t'⟩ := pair
      simp only [hget, hrun, Option.some.injEq, Prod.mk.injEq, exists_and_left, exists_eq_left']
      constructor
      · rintro rfl
        exact ⟨t', ⟨rfl, rfl⟩, rfl⟩
      · rintro ⟨t'', ⟨rfl, rfl⟩, htasks⟩
        rw [← htasks]

theorem Step.advance {i : ℕ} (h : Step init run p (.advance i) p') :
    ∃ before t later t', p.tasks = before ++ t :: later ∧ p.tasks[i]? = some t ∧
      run p.shared t = some (p'.shared, t') ∧ p'.tasks = before ++ t' :: later := by
  obtain ⟨t, t', hget, hrun, htasks⟩ := step_advance_iff.mp h
  obtain ⟨hi, ht⟩ := List.getElem?_eq_some_iff.mp hget
  refine ⟨p.tasks.take i, t, p.tasks.drop (i + 1), t', ?_, hget, hrun, ?_⟩
  · rw [← ht, ← List.drop_eq_getElem_cons hi, List.take_append_drop]
  · rw [htasks, List.set_eq_take_append_cons_drop, if_pos hi]

end TaskPool

end Machine
