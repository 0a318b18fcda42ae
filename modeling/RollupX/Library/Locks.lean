import Mathlib.Data.List.Perm.Basic
import Mathlib.Data.Set.Finite.Lemmas
import RollupX.Library.TaskPool

/-! Code that takes locks around what it reads and writes, run by one task or by a pool of tasks. -/

namespace Locks

open Machine

inductive Code (L σ ρ : Type) where
  | ret (r : ρ)
  | lock (l : L) (k : Code L σ ρ)
  | unlock (l : L) (k : Code L σ ρ)
  | read (k : σ → Code L σ ρ)
  | write (f : σ → σ) (k : Code L σ ρ)

variable {L σ ρ τ ι : Type}

namespace Code

def bind : Code L σ ρ → (ρ → Code L σ τ) → Code L σ τ
  | ret r, f => f r
  | lock l k, f => lock l (k.bind f)
  | unlock l k, f => unlock l (k.bind f)
  | read k, f => read fun s => (k s).bind f
  | write g k, f => write g (k.bind f)

instance : Monad (Code L σ) where
  pure := ret
  bind := bind

def acquire (l : L) : Code L σ Unit :=
  lock l (ret ())

def release (l : L) : Code L σ Unit :=
  unlock l (ret ())

def fetch : Code L σ σ :=
  read ret

def update (f : σ → σ) : Code L σ Unit :=
  write f (ret ())

/-- What the code does if nothing comes between its steps. -/
def eval : Code L σ ρ → σ → σ × ρ
  | ret r, s => (s, r)
  | lock _ k, s => k.eval s
  | unlock _ k, s => k.eval s
  | read k, s => (k s).eval s
  | write f k, s => k.eval (f s)

@[simp] theorem eval_pure (r : ρ) (s : σ) : (pure r : Code L σ ρ).eval s = (s, r) :=
  rfl

@[simp] theorem eval_acquire (l : L) (s : σ) : (acquire l).eval s = (s, ()) :=
  rfl

@[simp] theorem eval_release (l : L) (s : σ) : (release l).eval s = (s, ()) :=
  rfl

@[simp] theorem eval_fetch (s : σ) : (fetch : Code L σ σ).eval s = (s, s) :=
  rfl

@[simp] theorem eval_update (f : σ → σ) (s : σ) : (update f : Code L σ Unit).eval s = (f s, ()) :=
  rfl

@[simp] theorem eval_bind (c : Code L σ ρ) (f : ρ → Code L σ τ) (s : σ) :
    (c >>= f).eval s = (f (c.eval s).2).eval (c.eval s).1 := by
  induction c generalizing s with
  | ret r => rfl
  | lock l k ih | unlock l k ih => exact ih s
  | read k ih => exact ih s s
  | write g k ih => exact ih (g s)

/-- Every lock is asked for as `ok` allows with those that are held, only a lock that is held is
released, and `post` are held at the end. -/
def Follows [DecidableEq L] (ok : List L → L → Prop) (post : List L) :
    Code L σ ρ → List L → Prop
  | ret _, held => held = post
  | lock l k, held => ok held l ∧ k.Follows ok post (l :: held)
  | unlock l k, held => l ∈ held ∧ k.Follows ok post (held.erase l)
  | read k, held => ∀ s, (k s).Follows ok post held
  | write _ k, held => k.Follows ok post held

section Follows

variable [DecidableEq L] {ok : List L → L → Prop} {held mid post : List L}

@[simp] theorem follows_pure {r : ρ} :
    (pure r : Code L σ ρ).Follows ok post held ↔ held = post :=
  Iff.rfl

@[simp] theorem follows_release {l : L} :
    (release l : Code L σ Unit).Follows ok post held ↔ l ∈ held ∧ held.erase l = post :=
  Iff.rfl

@[simp] theorem follows_acquire_bind {l : L} {f : Unit → Code L σ τ} :
    (acquire l >>= f).Follows ok post held ↔ ok held l ∧ (f ()).Follows ok post (l :: held) :=
  Iff.rfl

@[simp] theorem follows_release_bind {l : L} {f : Unit → Code L σ τ} :
    (release l >>= f).Follows ok post held ↔ l ∈ held ∧ (f ()).Follows ok post (held.erase l) :=
  Iff.rfl

@[simp] theorem follows_fetch_bind {f : σ → Code L σ τ} :
    (fetch >>= f).Follows ok post held ↔ ∀ s, (f s).Follows ok post held :=
  Iff.rfl

@[simp] theorem follows_update_bind {g : σ → σ} {f : Unit → Code L σ τ} :
    (update g >>= f).Follows ok post held ↔ (f ()).Follows ok post held :=
  Iff.rfl

theorem Follows.bind {c : Code L σ ρ} {f : ρ → Code L σ τ} (hc : c.Follows ok mid held)
    (hf : ∀ r, (f r).Follows ok post mid) : (c >>= f).Follows ok post held := by
  induction c generalizing held with
  | ret r =>
    obtain rfl : held = mid := hc
    exact hf r
  | lock l k ih | unlock l k ih => exact ⟨hc.1, ih hc.2⟩
  | read k ih => exact fun s => ih s (hc s)
  | write g k ih => exact ih hc

/-- The code asks for locks as `ok` allows, until it comes to one of the places. -/
inductive Until (ok : List L → L → Prop) (place : List L → Code L σ ρ → Prop) :
    List L → Code L σ ρ → Prop where
  | place {held : List L} {c : Code L σ ρ} (h : place held c) : Until ok place held c
  | ret (r : ρ) : Until ok place [] (ret r)
  | lock {held : List L} {l : L} {k : Code L σ ρ} (h : ok held l)
      (hk : Until ok place (l :: held) k) : Until ok place held (lock l k)
  | unlock {held : List L} {l : L} {k : Code L σ ρ} (hk : Until ok place (held.erase l) k) :
      Until ok place held (unlock l k)
  | read {held : List L} {k : σ → Code L σ ρ} (hk : ∀ s, Until ok place held (k s)) :
      Until ok place held (read k)
  | write {held : List L} {f : σ → σ} {k : Code L σ ρ} (hk : Until ok place held k) :
      Until ok place held (write f k)

theorem Until.of_follows {place : List L → Code L σ ρ → Prop} {c : Code L σ ρ}
    (h : c.Follows ok [] held) : Until ok place held c := by
  induction c generalizing held with
  | ret r =>
    obtain rfl : held = [] := h
    exact .ret r
  | lock l k ih => exact .lock h.1 (ih h.2)
  | unlock l k ih => exact .unlock (ih h.2)
  | read k ih => exact .read fun s => ih s (h s)
  | write g k ih => exact .write (ih h)

theorem Follows.until {place : List L → Code L σ τ → Prop} {c : Code L σ ρ}
    {f : ρ → Code L σ τ} (hc : c.Follows ok mid held) (hf : ∀ r, Until ok place mid (f r)) :
    Until ok place held (c >>= f) := by
  induction c generalizing held with
  | ret r =>
    obtain rfl : held = mid := hc
    exact hf r
  | lock l k ih => exact .lock hc.1 (ih hc.2)
  | unlock l k ih => exact .unlock (ih hc.2)
  | read k ih => exact .read fun s => ih s (hc s)
  | write g k ih => exact .write (ih hc)

end Follows

end Code

/-- What the tasks share: the data, and the locks that are taken. -/
structure Shared (L σ : Type) where
  data : σ
  locked : List L

/-- A task, with the locks that it holds. -/
structure Task (L σ ρ : Type) where
  held : List L
  code : Code L σ ρ

namespace Task

def start (c : Code L σ ρ) : Task L σ ρ :=
  ⟨[], c⟩

def awaits (t : Task L σ ρ) : Option L :=
  match t.code with
  | .lock l _ => some l
  | _ => none

/-- One step. A lock that is taken cannot be taken again before it is released. -/
def step [DecidableEq L] (s : Shared L σ) (t : Task L σ ρ) :
    Option (Shared L σ × Task L σ ρ) :=
  match t.code with
  | .ret _ => none
  | .lock l k =>
    if l ∈ s.locked then none else some (⟨s.data, l :: s.locked⟩, ⟨l :: t.held, k⟩)
  | .unlock l k =>
    if l ∈ t.held then some (⟨s.data, s.locked.erase l⟩, ⟨t.held.erase l, k⟩) else none
  | .read k => some (s, ⟨t.held, k s.data⟩)
  | .write f k => some (⟨f s.data, s.locked⟩, ⟨t.held, k⟩)

end Task

abbrev Pool (L σ ρ : Type) :=
  TaskPool (Shared L σ) (Task L σ ρ)

/-- The interleavings of tasks that run `code` on their inputs. -/
def PoolStep [DecidableEq L] (code : ι → Code L σ ρ) :
    Pool L σ ρ → TaskEvent ι → Pool L σ ρ → Prop :=
  TaskPool.Step (fun input => Task.start (code input)) Task.step

def Pool.empty (s : σ) : Pool L σ ρ :=
  ⟨⟨s, []⟩, []⟩

def Pool.Waits (p : Pool L σ ρ) (i : ℕ) (l : L) : Prop :=
  ∃ t, p.tasks[i]? = some t ∧ t.awaits = some l

def Pool.Holds (p : Pool L σ ρ) (i : ℕ) (l : L) : Prop :=
  ∃ t, p.tasks[i]? = some t ∧ l ∈ t.held

/-- Each task of a non-empty set waits for a lock that another task of the set holds. -/
def Pool.Deadlocked (p : Pool L σ ρ) : Prop :=
  ∃ S : Set ℕ, S.Nonempty ∧ ∀ i ∈ S, ∃ l, p.Waits i l ∧ ∃ j ∈ S, j ≠ i ∧ p.Holds j l

theorem Pool.deadlocked_of_pair {p : Pool L σ ρ} {i j : ℕ} {l l' : L} (hne : i ≠ j)
    (hi : p.Waits i l) (hj : p.Holds j l) (hj' : p.Waits j l') (hi' : p.Holds i l') :
    p.Deadlocked := by
  refine ⟨{i, j}, Set.insert_nonempty i {j}, ?_⟩
  intro k hk
  rcases hk with rfl | rfl
  · exact ⟨l, hi, j, Set.mem_insert_of_mem k rfl, hne.symm, hj⟩
  · exact ⟨l', hj', i, Set.mem_insert i {k}, hne, hi'⟩

/-- However the locks are ranked, a task of a deadlock asks for one that is not above one that it
holds: the task that holds what the task with the highest wish waits for. -/
theorem Pool.Deadlocked.exists_inversion {p : Pool L σ ρ} (h : p.Deadlocked) (rank : L → ℕ) :
    ∃ i l l', p.Waits i l ∧ p.Holds i l' ∧ rank l ≤ rank l' := by
  obtain ⟨S, hne, hS⟩ := h
  let wish : ℕ → ℕ := fun i => ((p.tasks[i]?).bind Task.awaits).elim 0 rank
  have hwish : ∀ {i l}, p.Waits i l → wish i = rank l := by
    rintro i l ⟨t, ht, hl⟩
    simp [wish, ht, hl]
  have hfinite : S.Finite := by
    refine (Set.finite_lt_nat p.tasks.length).subset fun i hi => ?_
    obtain ⟨l, ⟨t, ht, -⟩, -⟩ := hS i hi
    exact (List.getElem?_eq_some_iff.mp ht).1
  obtain ⟨i, hi, hmax⟩ := Set.exists_max_image S wish hfinite hne
  obtain ⟨l, hwaits, j, hj, -, hholds⟩ := hS i hi
  obtain ⟨l', hwaits', -⟩ := hS j hj
  refine ⟨j, l', l, hwaits', hholds, ?_⟩
  rw [← hwish hwaits, ← hwish hwaits']
  exact hmax j hj

section Steps

variable [DecidableEq L] {code : ι → Code L σ ρ} {ok : List L → L → Prop}

/-- What a step of a task changes. -/
inductive Task.Effect (s : Shared L σ) (t : Task L σ ρ) : Shared L σ → Task L σ ρ → Prop where
  | locked {l : L} {k : Code L σ ρ} (hcode : t.code = .lock l k) (hfree : l ∉ s.locked) :
      Effect s t ⟨s.data, l :: s.locked⟩ ⟨l :: t.held, k⟩
  | unlocked {l : L} {k : Code L σ ρ} (hcode : t.code = .unlock l k) (hheld : l ∈ t.held) :
      Effect s t ⟨s.data, s.locked.erase l⟩ ⟨t.held.erase l, k⟩
  | read {k : σ → Code L σ ρ} (hcode : t.code = .read k) : Effect s t s ⟨t.held, k s.data⟩
  | wrote {f : σ → σ} {k : Code L σ ρ} (hcode : t.code = .write f k) :
      Effect s t ⟨f s.data, s.locked⟩ ⟨t.held, k⟩

theorem Task.step_effect {s s' : Shared L σ} {t t' : Task L σ ρ}
    (h : t.step s = some (s', t')) : t.Effect s s' t' := by
  unfold Task.step at h
  split at h
  · cases h
  · rename_i l k hcode
    split at h
    · cases h
    · rename_i hfree
      cases h
      exact .locked hcode hfree
  · rename_i l k hcode
    split at h
    · rename_i hheld
      cases h
      exact .unlocked hcode hheld
    · cases h
  · rename_i k hcode
    cases h
    exact .read hcode
  · rename_i f k hcode
    cases h
    exact .wrote hcode

/-- A lock that is taken is held by one task, and the tasks follow the rule. -/
structure Sound (ok : List L → L → Prop) (p : Pool L σ ρ) : Prop where
  held : (p.tasks.flatMap Task.held).Perm p.shared.locked
  nodup : p.shared.locked.Nodup
  follows : ∀ t ∈ p.tasks, t.code.Follows ok [] t.held

theorem sound_empty (s : σ) : Sound ok (Pool.empty s : Pool L σ ρ) :=
  ⟨.refl _, List.nodup_nil, fun _ ht => absurd ht List.not_mem_nil⟩

theorem Sound.mem_locked {p : Pool L σ ρ} (h : Sound ok p) {t : Task L σ ρ} (ht : t ∈ p.tasks)
    {l : L} (hl : l ∈ t.held) : l ∈ p.shared.locked :=
  h.held.subset (List.mem_flatMap.mpr ⟨t, ht, hl⟩)

theorem Task.Effect.held {s s' : Shared L σ} {t t' : Task L σ ρ} (h : t.Effect s s' t')
    {before later : List L} (hheld : (before ++ (t.held ++ later)).Perm s.locked)
    (hnodup : s.locked.Nodup) :
    (before ++ (t'.held ++ later)).Perm s'.locked ∧ s'.locked.Nodup := by
  cases h with
  | locked hcode hfree =>
    exact ⟨List.perm_middle.trans (hheld.cons _), List.nodup_cons.mpr ⟨hfree, hnodup⟩⟩
  | @unlocked l k hcode hmem =>
    have hlocked : l ∈ s.locked := hheld.subset (by simp [hmem])
    refine ⟨List.Perm.cons_inv (a := l) ?_, hnodup.erase l⟩
    calc l :: (before ++ (t.held.erase l ++ later))
        _ |>.Perm (before ++ (l :: t.held.erase l ++ later)) := List.perm_middle.symm
        _ |>.Perm (before ++ (t.held ++ later)) :=
          ((List.perm_cons_erase hmem).symm.append_right later).append_left before
        _ |>.Perm s.locked := hheld
        _ |>.Perm (l :: s.locked.erase l) := List.perm_cons_erase hlocked
  | read hcode | wrote hcode => exact ⟨hheld, hnodup⟩

theorem Task.Effect.follows {s s' : Shared L σ} {t t' : Task L σ ρ} (h : t.Effect s s' t')
    (hfollows : t.code.Follows ok [] t.held) : t'.code.Follows ok [] t'.held := by
  cases h with
  | locked hcode hfree | unlocked hcode hheld =>
    rw [hcode] at hfollows
    exact hfollows.2
  | read hcode =>
    rw [hcode] at hfollows
    exact hfollows s.data
  | wrote hcode =>
    rw [hcode] at hfollows
    exact hfollows

theorem Task.Effect.until {s s' : Shared L σ} {t t' : Task L σ ρ} (h : t.Effect s s' t')
    {place : List L → Code L σ ρ → Prop} (hc : Code.Until ok place t.held t.code) :
    place t.held t.code ∨ Code.Until ok place t'.held t'.code := by
  obtain ⟨held, code⟩ := t
  cases hc with
  | place hplace => exact .inl hplace
  | ret r => cases h <;> cases ‹_ = _›
  | lock hok hk | unlock hk | write hk => cases h <;> cases ‹_ = _›; exact .inr hk
  | read hk => cases h <;> cases ‹_ = _›; exact .inr (hk _)

theorem Sound.step {p p' : Pool L σ ρ} {event : TaskEvent ι} (h : Sound ok p)
    (hcode : ∀ input, event = .spawn input → (code input).Follows ok [] [])
    (hstep : PoolStep code p event p') : Sound ok p' := by
  cases event with
  | spawn input =>
    obtain rfl := TaskPool.step_spawn_iff.mp hstep
    refine ⟨?_, h.nodup, ?_⟩
    · simpa [Task.start] using h.held
    · rw [List.forall_mem_append, List.forall_mem_singleton]
      exact ⟨h.follows, hcode input rfl⟩
  | advance i =>
    obtain ⟨before, t, later, t', htasks, -, hrun, htasks'⟩ := hstep.advance
    have heffect := Task.step_effect hrun
    have hheld := h.held
    rw [htasks, List.flatMap_append, List.flatMap_cons] at hheld
    obtain ⟨hperm, hnodup⟩ := heffect.held hheld h.nodup
    have hfollows := h.follows
    rw [htasks, List.forall_mem_append, List.forall_mem_cons] at hfollows
    refine ⟨?_, hnodup, ?_⟩
    · rw [htasks', List.flatMap_append, List.flatMap_cons]
      exact hperm
    · rw [htasks', List.forall_mem_append, List.forall_mem_cons]
      exact ⟨hfollows.1, heffect.follows hfollows.2.1, hfollows.2.2⟩

theorem sound_of_run {s : σ} {events : List (TaskEvent ι)} {p : Pool L σ ρ}
    (hcode : ∀ input, .spawn input ∈ events → (code input).Follows ok [] [])
    (hr : Run (PoolStep code) (Pool.empty s) events p) : Sound ok p := by
  have hspawned : Along (PoolStep code)
      (fun _ event => ∀ input, event = .spawn input → (code input).Follows ok [] [])
      (Pool.empty s) events := by
    refine Along.of_forall fun event hevent _ input hspawn => hcode input ?_
    rw [← hspawn]
    exact hevent
  exact hr.invariant (fun _ _ _ h hspawn hstep => h.step hspawn hstep) hspawned (sound_empty s)

theorem Sound.requests {p : Pool L σ ρ} (h : Sound ok p) {t : Task L σ ρ} (ht : t ∈ p.tasks)
    {l : L} (hawaits : t.awaits = some l) : ok t.held l := by
  have hfollows := h.follows t ht
  unfold Task.awaits at hawaits
  split at hawaits
  · rename_i hcode
    cases hawaits
    rw [hcode] at hfollows
    exact hfollows.1
  · cases hawaits

theorem Task.Effect.free_of_awaits {s s' : Shared L σ} {t t' : Task L σ ρ}
    (h : t.Effect s s' t') {l : L} (hawaits : t.awaits = some l) : l ∉ s.locked := by
  unfold Task.awaits at hawaits
  cases h with
  | locked hcode hfree =>
    simp only [hcode, Option.some.injEq] at hawaits
    exact hawaits ▸ hfree
  | unlocked hcode hheld | read hcode | wrote hcode => simp [hcode] at hawaits

theorem Pool.Waits.not_advance {p p' : Pool L σ ρ} {i : ℕ} {l : L} (h : p.Waits i l)
    (hlocked : l ∈ p.shared.locked) : ¬PoolStep code p (.advance i) p' := by
  intro hstep
  obtain ⟨t, hget, hawaits⟩ := h
  obtain ⟨t', t'', hget', hrun, -⟩ := TaskPool.step_advance_iff.mp hstep
  rw [hget, Option.some.injEq] at hget'
  subst hget'
  exact (Task.step_effect hrun).free_of_awaits hawaits hlocked

theorem getElem?_of_step {p p' : Pool L σ ρ} {event : TaskEvent ι} {i : ℕ} {t : Task L σ ρ}
    (hstep : PoolStep code p event p') (hne : event ≠ .advance i) (ht : p.tasks[i]? = some t) :
    p'.tasks[i]? = some t := by
  cases event with
  | spawn input =>
    obtain rfl := TaskPool.step_spawn_iff.mp hstep
    exact List.getElem?_append_left (List.getElem?_eq_some_iff.mp ht).1 ▸ ht
  | advance k =>
    obtain ⟨-, t', -, -, htasks⟩ := TaskPool.step_advance_iff.mp hstep
    have hki : k ≠ i := fun hki => hne (congrArg TaskEvent.advance hki)
    rw [htasks, List.getElem?_set_ne hki]
    exact ht

theorem Pool.Deadlocked.step {p p' : Pool L σ ρ} {event : TaskEvent ι} (h : p.Deadlocked)
    (hsound : Sound ok p) (hstep : PoolStep code p event p') : p'.Deadlocked := by
  obtain ⟨S, hne, hS⟩ := h
  have hstays : ∀ i ∈ S, event ≠ .advance i := by
    rintro i hi rfl
    obtain ⟨l, hwaits, j, -, -, t, ht, hl⟩ := hS i hi
    exact hwaits.not_advance (hsound.mem_locked (List.mem_of_getElem? ht) hl) hstep
  refine ⟨S, hne, fun i hi => ?_⟩
  obtain ⟨l, ⟨t, ht, hawaits⟩, j, hj, hji, t', ht', hl⟩ := hS i hi
  exact ⟨l, ⟨t, getElem?_of_step hstep (hstays i hi) ht, hawaits⟩, j, hj, hji, t',
    getElem?_of_step hstep (hstays j hj) ht', hl⟩

theorem Pool.Deadlocked.run {p p' : Pool L σ ρ} {events : List (TaskEvent ι)}
    (h : p.Deadlocked) (hsound : Sound ok p) (hcode : ∀ input, (code input).Follows ok [] [])
    (hr : Run (PoolStep code) p events p') : p'.Deadlocked :=
  (hr.invariant_of_step (I := fun p => p.Deadlocked ∧ Sound ok p)
    (fun _ _ _ h hstep =>
      ⟨h.1.step h.2 hstep, h.2.step (fun input _ => hcode input) hstep⟩) ⟨h, hsound⟩).1

end Steps

end Locks
