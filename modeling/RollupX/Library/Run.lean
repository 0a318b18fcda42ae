import Mathlib.Logic.Basic
import Mathlib.Data.List.Basic
import Mathlib.Data.Option.Defs

/-! Runs of a labelled step relation, conditions on the steps of a run, and the
invariant rule. Nothing here depends on what the steps do. -/

namespace Machine

variable {σ α : Type*}

/-- `Run step s as s'` takes one step for each label of `as`, in order. -/
inductive Run (step : σ → α → σ → Prop) : σ → List α → σ → Prop where
  | nil (s) : Run step s [] s
  | cons {s a t as u} : step s a t → Run step t as u → Run step s (a :: as) u

/-- Every step of the runs over `as` starts from a state and a label that `ok` allows. -/
def Along (step : σ → α → σ → Prop) (ok : σ → α → Prop) : σ → List α → Prop
  | _, [] => True
  | s, a :: as => ok s a ∧ ∀ t, step s a t → Along step ok t as

variable {step : σ → α → σ → Prop} {ok : σ → α → Prop}

@[simp] theorem run_nil_iff {s t : σ} : Run step s [] t ↔ s = t := by
  constructor
  · intro h
    cases h
    rfl
  · rintro rfl
    exact .nil s

theorem run_cons_iff {s u : σ} {a : α} {as : List α} :
    Run step s (a :: as) u ↔ ∃ t, step s a t ∧ Run step t as u := by
  constructor
  · intro h
    cases h with
    | cons hs hr => exact ⟨_, hs, hr⟩
  · rintro ⟨t, hs, hr⟩
    exact .cons hs hr

theorem run_append_iff {s u : σ} {as bs : List α} :
    Run step s (as ++ bs) u ↔ ∃ t, Run step s as t ∧ Run step t bs u := by
  induction as generalizing s with
  | nil => simp
  | cons a as ih =>
    simp only [List.cons_append, run_cons_iff, ih]
    constructor
    · rintro ⟨t, hs, m, hr, hr'⟩
      exact ⟨m, ⟨t, hs, hr⟩, hr'⟩
    · rintro ⟨m, ⟨t, hs, hr⟩, hr'⟩
      exact ⟨t, hs, m, hr, hr'⟩

/-- Some number of steps with one label leads from the one state to the other. -/
def Iterates (step : σ → α → σ → Prop) (a : α) (s t : σ) : Prop :=
  ∃ n, Run step s (List.replicate n a) t

theorem Iterates.refl (a : α) (s : σ) : Iterates step a s s :=
  ⟨0, .nil s⟩

theorem Iterates.head {a : α} {s t u : σ} (hs : step s a t) (h : Iterates step a t u) :
    Iterates step a s u := by
  obtain ⟨n, hr⟩ := h
  exact ⟨n + 1, .cons hs hr⟩

theorem Iterates.trans {a : α} {s t u : σ} (h : Iterates step a s t) (h' : Iterates step a t u) :
    Iterates step a s u := by
  obtain ⟨m, hr⟩ := h
  obtain ⟨n, hr'⟩ := h'
  refine ⟨m + n, ?_⟩
  rw [List.replicate_add]
  exact run_append_iff.mpr ⟨t, hr, hr'⟩

theorem run_foldl (f : σ → α → σ) (s : σ) (as : List α) :
    Run (fun s a t => f s a = t) s as (as.foldl f s) := by
  induction as generalizing s with
  | nil => exact .nil s
  | cons a as ih => exact .cons rfl (ih (f s a))

theorem Run.unique (hdet : ∀ s a t t', step s a t → step s a t' → t = t') {s t u : σ}
    {as : List α} (ht : Run step s as t) (hu : Run step s as u) : t = u := by
  induction ht with
  | nil s => exact run_nil_iff.mp hu
  | cons hstep _ ih =>
    obtain ⟨m, hm, hr⟩ := run_cons_iff.mp hu
    rw [hdet _ _ _ _ hm hstep] at hr
    exact ih hr

/-- Along a run whose steps all meet `ok`, whatever such a step keeps holds at the end. -/
theorem Run.invariant {I : σ → Prop} {s t : σ} {as : List α} (hr : Run step s as t)
    (keep : ∀ s a t, I s → ok s a → step s a t → I t)
    (hok : Along step ok s as) (hs : I s) : I t := by
  induction hr with
  | nil s => exact hs
  | cons hstep _ ih => exact ih (hok.2 _ hstep) (keep _ _ _ hs hok.1 hstep)

theorem Run.invariant_of_step {I : σ → Prop} {s t : σ} {as : List α}
    (hr : Run step s as t) (keep : ∀ s a t, I s → step s a t → I t) (hs : I s) : I t := by
  induction hr with
  | nil s => exact hs
  | cons hstep _ ih => exact ih (keep _ _ _ hs hstep)

/-- The rule for invariants that also speak of the labels read so far. -/
theorem Run.history {I : List α → σ → Prop} {s t : σ} {as : List α} (hr : Run step s as t)
    (keep : ∀ done s a t, I done s → step s a t → I (done ++ [a]) t) (hs : I [] s) : I as t := by
  suffices h : ∀ done, I done s → I (done ++ as) t from h [] hs
  clear hs
  induction hr with
  | nil s =>
    intro done h
    rw [List.append_nil]
    exact h
  | @cons s a t as u hstep _ ih =>
    intro done h
    rw [List.append_cons]
    exact ih _ (keep _ _ _ _ h hstep)

theorem Along.mono {ok' : σ → α → Prop} (himp : ∀ s a, ok s a → ok' s a) {s : σ}
    {as : List α} (h : Along step ok s as) : Along step ok' s as := by
  induction as generalizing s with
  | nil => trivial
  | cons a as ih => exact ⟨himp _ _ h.1, fun t hs => ih (h.2 t hs)⟩

theorem Along.of_forall {s : σ} {as : List α} (h : ∀ a ∈ as, ∀ s, ok s a) :
    Along step ok s as := by
  induction as generalizing s with
  | nil => trivial
  | cons a as ih =>
    refine ⟨h a List.mem_cons_self s, fun t _ => ih fun b hb => ?_⟩
    exact h b (List.mem_cons_of_mem a hb)

theorem Along.of_invariant {I : σ → Prop} {s : σ} {as : List α}
    (keep : ∀ s, ∀ a ∈ as, ∀ t, I s → step s a t → I t) (hok : ∀ s, ∀ a ∈ as, I s → ok s a)
    (hs : I s) : Along step ok s as := by
  induction as generalizing s with
  | nil => trivial
  | cons a as ih =>
    refine ⟨hok s a List.mem_cons_self hs, fun t hstep => ?_⟩
    refine ih (fun s b hb => keep s b (List.mem_cons_of_mem a hb))
      (fun s b hb => hok s b (List.mem_cons_of_mem a hb)) ?_
    exact keep s a List.mem_cons_self t hs hstep

theorem Along.and {ok' : σ → α → Prop} {s : σ} {as : List α} (h : Along step ok s as)
    (h' : Along step ok' s as) : Along step (fun s a => ok s a ∧ ok' s a) s as := by
  induction as generalizing s with
  | nil => trivial
  | cons a as ih => exact ⟨⟨h.1, h'.1⟩, fun t hs => ih (h.2 t hs) (h'.2 t hs)⟩

/-- Where steps have one outcome, the implication is needed only at steps that are taken. -/
theorem Along.mono_of_run {ok' : σ → α → Prop} {s u : σ} {as : List α}
    (hdet : ∀ s a t t', step s a t → step s a t' → t = t') (hr : Run step s as u)
    (himp : ∀ s a t, step s a t → ok s a → ok' s a) (h : Along step ok s as) :
    Along step ok' s as := by
  induction hr with
  | nil s => trivial
  | cons hstep _ ih =>
    refine ⟨himp _ _ _ hstep h.1, fun t ht => ?_⟩
    rw [hdet _ _ _ _ ht hstep]
    exact ih (h.2 _ hstep)

theorem along_append_iff {s : σ} {as bs : List α} :
    Along step ok s (as ++ bs) ↔
      Along step ok s as ∧ ∀ t, Run step s as t → Along step ok t bs := by
  induction as generalizing s with
  | nil => simp [Along]
  | cons a as ih =>
    simp only [List.cons_append, Along, ih]
    constructor
    · rintro ⟨hok, hrest⟩
      refine ⟨⟨hok, fun t hs => (hrest t hs).1⟩, ?_⟩
      intro u hr
      obtain ⟨t, hs, hr'⟩ := run_cons_iff.mp hr
      exact (hrest t hs).2 u hr'
    · rintro ⟨⟨hok, hrest⟩, hlast⟩
      exact ⟨hok, fun t hs => ⟨hrest t hs, fun u hr => hlast u (.cons hs hr)⟩⟩

/-- A fold that may stop early is a run of its successful steps. -/
theorem foldlM_ok_iff {ε : Type*} (f : σ → α → Except ε σ) (as : List α) (s t : σ) :
    as.foldlM f s = .ok t ↔ Run (fun s a t => f s a = .ok t) s as t := by
  induction as generalizing s with
  | nil => simp [pure, Except.pure]
  | cons a as ih =>
    rw [List.foldlM_cons, run_cons_iff]
    cases hf : f s a with
    | error e => simp [bind, Except.bind]
    | ok u => simp [bind, Except.bind, ih]

def checkAlong (f : σ → α → Option σ) (ok : σ → α → Prop) [∀ s a, Decidable (ok s a)] :
    σ → List α → Bool
  | _, [] => true
  | s, a :: as =>
    decide (ok s a) &&
      match f s a with
      | none => true
      | some t => checkAlong f ok t as

theorem Along.of_check {f : σ → α → Option σ} {ok : σ → α → Prop}
    [∀ s a, Decidable (ok s a)] {s : σ} {as : List α} (h : checkAlong f ok s as = true) :
    Along (fun s a t => f s a = some t) ok s as := by
  induction as generalizing s with
  | nil => trivial
  | cons a as ih =>
    rw [checkAlong, Bool.and_eq_true, decide_eq_true_eq] at h
    refine ⟨h.1, fun t ht => ih ?_⟩
    rw [ht] at h
    exact h.2

theorem foldlM_some_iff (f : σ → α → Option σ) (as : List α) (s t : σ) :
    as.foldlM f s = some t ↔ Run (fun s a t => f s a = some t) s as t := by
  induction as generalizing s with
  | nil => simp
  | cons a as ih =>
    rw [List.foldlM_cons, run_cons_iff]
    cases hf : f s a with
    | none => simp
    | some u => simp [ih]

/-- Two step functions that answer alike in related states do so over any list of labels. -/
theorem foldlM_rel {τ : Type*} {R : σ → τ → Prop} {f : σ → α → Option σ} {g : τ → α → Option τ}
    {as : List α} (h : ∀ s t, R s t → ∀ a ∈ as, Option.Rel R (f s a) (g t a)) {s : σ} {t : τ}
    (hst : R s t) : Option.Rel R (as.foldlM f s) (as.foldlM g t) := by
  induction as generalizing s t with
  | nil => exact .some hst
  | cons a as ih =>
    rw [List.foldlM_cons, List.foldlM_cons]
    have ha := h s t hst a List.mem_cons_self
    generalize f s a = s' at ha ⊢
    generalize g t a = t' at ha ⊢
    cases ha with
    | none => exact .none
    | some hst' => exact ih (fun s t hst b hb => h s t hst b (List.mem_cons_of_mem a hb)) hst'

/-- The runs of a machine that keeps more are the runs of the machine, with more kept. -/
theorem run_forget_iff {τ : Type*} {f : σ → α → Option σ} {g : τ → α → Option τ} (forget : τ → σ)
    (h : ∀ t a, (g t a).map forget = f (forget t) a) {t : τ} {as : List α} {s : σ} :
    Run (fun s a s' => f s a = some s') (forget t) as s ↔
      ∃ t', Run (fun t a t' => g t a = some t') t as t' ∧ forget t' = s := by
  induction as generalizing t with
  | nil => simp [eq_comm]
  | cons a as ih =>
    simp only [run_cons_iff, ← h]
    constructor
    · rintro ⟨u, hu, hr⟩
      obtain ⟨t', ht', rfl⟩ := Option.map_eq_some_iff.mp hu
      obtain ⟨u', hr', hu'⟩ := ih.mp hr
      exact ⟨u', ⟨t', ht', hr'⟩, hu'⟩
    · rintro ⟨u', ⟨t', ht', hr'⟩, hu'⟩
      exact ⟨_, Option.map_eq_some_iff.mpr ⟨t', ht', rfl⟩, ih.mpr ⟨u', hr', hu'⟩⟩

/-- The answers of a step function to the labels, one after the other. -/
def answers {β : Type*} (f : σ → α → σ × β) : σ → List α → List β
  | _, [] => []
  | s, a :: as => (f s a).2 :: answers f (f s a).1 as

/-- Machines that answer alike in related states, and lead to such states, answer alike. -/
theorem answers_eq {β τ : Type*} {f : σ → α → σ × β} {g : τ → α → τ × β} {R : σ → τ → Prop}
    (h : ∀ s t a, R s t → (f s a).2 = (g t a).2 ∧ R (f s a).1 (g t a).1) {s : σ} {t : τ}
    (hst : R s t) (as : List α) : answers f s as = answers g t as := by
  induction as generalizing s t with
  | nil => rfl
  | cons a as ih =>
    obtain ⟨hanswer, hst'⟩ := h s t a hst
    rw [answers, answers, hanswer, ih hst']

/-- Labels that evaluate to a state give a run, and what was read off the state. -/
theorem exists_run_of_foldlM {β : Type*} (f : σ → α → Option σ) (s : σ) (as : List α)
    (g : σ → β) {b : β} (h : (as.foldlM f s).map g = some b) :
    ∃ t, Run (fun s a t => f s a = some t) s as t ∧ g t = b := by
  obtain ⟨t, ht, hb⟩ := Option.map_eq_some_iff.mp h
  exact ⟨t, (foldlM_some_iff f as s t).mp ht, hb⟩

theorem exists_runs_of_foldlM {β : Type*} (f : σ → α → Option σ) (s : σ) (as bs : List α)
    (g : σ → σ → β) {b : β}
    (h : (as.foldlM f s).bind (fun t => (bs.foldlM f t).map (g t)) = some b) :
    ∃ t u, Run (fun s a t => f s a = some t) s as t ∧ Run (fun s a t => f s a = some t) t bs u ∧
      g t u = b := by
  obtain ⟨t, ht, h⟩ := Option.bind_eq_some_iff.mp h
  obtain ⟨u, hu, hb⟩ := exists_run_of_foldlM f t bs (g t) h
  exact ⟨t, u, (foldlM_some_iff f as s t).mp ht, hu, hb⟩

theorem exists_step_of_foldlM {β : Type*} (f : σ → α → Option σ) (s : σ) (as : List α) (a : α)
    (g : σ → σ → β) {b : β} (h : (as.foldlM f s).bind (fun t => (f t a).map (g t)) = some b) :
    ∃ t u, Run (fun s a t => f s a = some t) s as t ∧ f t a = some u ∧ g t u = b := by
  obtain ⟨t, ht, h⟩ := Option.bind_eq_some_iff.mp h
  obtain ⟨u, hu, hb⟩ := Option.map_eq_some_iff.mp h
  exact ⟨t, u, (foldlM_some_iff f as s t).mp ht, hu, hb⟩

end Machine
