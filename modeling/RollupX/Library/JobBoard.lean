import Mathlib.Data.List.Perm.Lattice
import Mathlib.Logic.Function.Basic
import RollupX.Library.Run

/-! Jobs under keys. A key is submitted where it is open, its job passes from hand to hand until
somebody finishes it, and a job may be abandoned on the way. -/

namespace Machine

variable {K : Type*}

inductive JobStatus where
  | unclaimed
  | active
  | done
  deriving DecidableEq, Repr

structure JobBoard (K : Type*) where
  status : K → JobStatus
  live : List K

/-- What a step does to the board. -/
inductive JobMove (K : Type*) where
  | shift
  | mark (k : K)
  | submit (k : K)
  | finish (k : K) (status : JobStatus)
  | abandon (ks : List K)

def JobMove.abandons : JobMove K → Bool
  | .abandon _ => true
  | _ => false

namespace JobBoard

/-- No key has two jobs, and a key with a job is active. -/
structure Sound (b : JobBoard K) : Prop where
  nodup : b.live.Nodup
  active : ∀ k ∈ b.live, b.status k = .active

def Complete (b : JobBoard K) : Prop :=
  ∀ k, b.status k = .active → k ∈ b.live

/-- An active key has lost its job. -/
def Stranded (b : JobBoard K) (k : K) : Prop :=
  b.status k = .active ∧ k ∉ b.live

inductive Step [DecidableEq K] (b : JobBoard K) : JobMove K → JobBoard K → Prop where
  | shift {b'} : b'.status = b.status → b'.live.Perm b.live → Step b .shift b'
  | mark {b' k} : k ∈ b.live → b'.status = Function.update b.status k .active →
      b'.live.Perm b.live → Step b (.mark k) b'
  | submit {b' k} : b.status k = .unclaimed →
      b'.status = Function.update b.status k .active → b'.live.Perm (k :: b.live) →
      Step b (.submit k) b'
  | finish {b' k status} : status ≠ .active → b.live.Perm (k :: b'.live) →
      b'.status = Function.update b.status k status → Step b (.finish k status) b'
  | abandon {b' ks} : ks ≠ [] → b'.status = b.status → b.live.Perm (ks ++ b'.live) →
      Step b (.abandon ks) b'

variable {b b' : JobBoard K} {m : JobMove K}

theorem not_complete_iff : ¬b.Complete ↔ ∃ k, b.Stranded k := by
  simp [Complete, Stranded]

variable [DecidableEq K]

theorem Step.sound (hstep : b.Step m b') (h : b.Sound) : b'.Sound := by
  cases hstep with
  | shift hs hl =>
    refine ⟨hl.nodup_iff.mpr h.nodup, fun k hk => ?_⟩
    rw [hs]
    exact h.active k (hl.subset hk)
  | @mark _ k _ hs hl =>
    refine ⟨hl.nodup_iff.mpr h.nodup, fun j hj => ?_⟩
    rw [hs]
    by_cases hjk : j = k
    · exact hjk ▸ Function.update_self ..
    · rw [Function.update_of_ne hjk]
      exact h.active j (hl.subset hj)
  | @submit _ k hk hs hl =>
    have hfresh : k ∉ b.live := by
      intro hmem
      simp [h.active k hmem] at hk
    refine ⟨hl.nodup_iff.mpr (List.nodup_cons.mpr ⟨hfresh, h.nodup⟩), fun j hj => ?_⟩
    rw [hs]
    rcases List.mem_cons.mp (hl.subset hj) with rfl | hj
    · exact Function.update_self ..
    · rw [Function.update_of_ne (ne_of_mem_of_not_mem hj hfresh)]
      exact h.active j hj
  | @finish _ k _ _ hl hs =>
    obtain ⟨hk, hn⟩ := List.nodup_cons.mp (hl.nodup_iff.mp h.nodup)
    refine ⟨hn, fun j hj => ?_⟩
    rw [hs, Function.update_of_ne (ne_of_mem_of_not_mem hj hk)]
    exact h.active j (hl.symm.subset (List.mem_cons_of_mem _ hj))
  | abandon _ hs hl =>
    refine ⟨(List.nodup_append.mp (hl.nodup_iff.mp h.nodup)).2.1, fun k hk => ?_⟩
    rw [hs]
    exact h.active k (hl.symm.subset (List.mem_append_right _ hk))

theorem Step.complete (hstep : b.Step m b') (hm : m.abandons = false) (h : b.Complete) :
    b'.Complete := by
  intro j hj
  cases hstep with
  | shift hs hl =>
    rw [hs] at hj
    exact hl.symm.subset (h j hj)
  | @mark _ k hk hs hl =>
    apply hl.symm.subset
    by_cases hjk : j = k
    · exact hjk ▸ hk
    · rw [hs, Function.update_of_ne hjk] at hj
      exact h j hj
  | @submit _ k hk hs hl =>
    apply hl.symm.subset
    by_cases hjk : j = k
    · exact hjk ▸ List.mem_cons_self
    · rw [hs, Function.update_of_ne hjk] at hj
      exact List.mem_cons_of_mem _ (h j hj)
  | @finish _ k _ hne hl hs =>
    have hjk : j ≠ k := by
      rintro rfl
      rw [hs, Function.update_self] at hj
      exact hne hj
    rw [hs, Function.update_of_ne hjk] at hj
    exact List.mem_of_ne_of_mem hjk (hl.subset (h j hj))
  | abandon => simp [JobMove.abandons] at hm

theorem Step.done (hstep : b.Step m b') (hb : b.Sound) {j : K} (hj : b.status j = .done) :
    b'.status j = .done := by
  cases hstep with
  | shift hs _ | abandon _ hs _ => rw [hs, hj]
  | @mark _ k hk hs _ =>
    rw [hs, Function.update_of_ne, hj]
    rintro rfl
    simp [hb.active j hk] at hj
  | @submit _ k hk hs _ =>
    rw [hs, Function.update_of_ne, hj]
    rintro rfl
    simp [hj] at hk
  | @finish _ k _ _ hl hs =>
    rw [hs, Function.update_of_ne, hj]
    rintro rfl
    have hk := hb.active j (hl.symm.subset List.mem_cons_self)
    simp [hj] at hk

theorem Step.stranded (hstep : b.Step m b') {j : K} (hj : b.Stranded j) : b'.Stranded j := by
  obtain ⟨hactive, hlost⟩ := hj
  cases hstep with
  | shift hs hl => exact ⟨by rw [hs, hactive], fun hmem => hlost (hl.subset hmem)⟩
  | @mark _ k hk hs hl =>
    have hjk : j ≠ k := ne_of_mem_of_not_mem hk hlost |>.symm
    exact ⟨by rw [hs, Function.update_of_ne hjk, hactive], fun hmem => hlost (hl.subset hmem)⟩
  | @submit _ k hk hs hl =>
    have hjk : j ≠ k := by
      rintro rfl
      simp [hactive] at hk
    refine ⟨by rw [hs, Function.update_of_ne hjk, hactive], fun hmem => hlost ?_⟩
    exact List.mem_of_ne_of_mem hjk (hl.subset hmem)
  | @finish _ k _ _ hl hs =>
    have hjk : j ≠ k := by
      rintro rfl
      exact hlost (hl.symm.subset List.mem_cons_self)
    refine ⟨by rw [hs, Function.update_of_ne hjk, hactive], fun hmem => hlost ?_⟩
    exact hl.symm.subset (List.mem_cons_of_mem _ hmem)
  | abandon _ hs hl =>
    refine ⟨by rw [hs, hactive], fun hmem => hlost ?_⟩
    exact hl.symm.subset (List.mem_append_right _ hmem)

theorem Step.strands (hstep : b.Step m b') (hm : m.abandons = true) (h : b.Sound) :
    ∃ k, b'.Stranded k := by
  cases hstep with
  | @abandon _ ks hne hs hl =>
    obtain ⟨k, hk⟩ := List.exists_mem_of_ne_nil ks hne
    refine ⟨k, ?_, ?_⟩
    · rw [hs]
      exact h.active k (hl.symm.subset (List.mem_append_left _ hk))
    · intro hmem
      exact (List.nodup_append.mp (hl.nodup_iff.mp h.nodup)).2.2 k hk k hmem rfl
  | shift | mark | submit | finish => simp [JobMove.abandons] at hm

section Refinement

variable {σ α : Type*} {step : σ → α → σ → Prop} {board : σ → JobBoard K} {drops : α → Bool}
  {s t : σ} {as : List α}

/-- Each step moves the board, and the labels in `drops` are those that abandon a job. -/
def Refines (step : σ → α → σ → Prop) (board : σ → JobBoard K) (drops : α → Bool) : Prop :=
  ∀ s a t, step s a t → ∃ m, (board s).Step m (board t) ∧ m.abandons = drops a

theorem Refines.sound (hmove : Refines step board drops) (hr : Run step s as t)
    (hs : (board s).Sound) : (board t).Sound := by
  refine hr.invariant_of_step (I := fun s => (board s).Sound) ?_ hs
  intro s a t h hstep
  obtain ⟨m, hm, -⟩ := hmove s a t hstep
  exact hm.sound h

theorem Refines.done (hmove : Refines step board drops) (hr : Run step s as t)
    (hs : (board s).Sound) {k : K} (hk : (board s).status k = .done) :
    (board t).status k = .done := by
  refine (hr.invariant_of_step (I := fun s => (board s).Sound ∧ (board s).status k = .done)
    ?_ ⟨hs, hk⟩).2
  intro s a t h hstep
  obtain ⟨m, hm, -⟩ := hmove s a t hstep
  exact ⟨hm.sound h.1, hm.done h.1 h.2⟩

theorem Refines.stranded (hmove : Refines step board drops) (hr : Run step s as t) {k : K}
    (hk : (board s).Stranded k) : (board t).Stranded k := by
  refine hr.invariant_of_step (I := fun s => (board s).Stranded k) ?_ hk
  intro s a t h hstep
  obtain ⟨m, hm, -⟩ := hmove s a t hstep
  exact hm.stranded h

/-- A run from a board without lost jobs ends in one if and only if no step abandons a
job. -/
theorem Refines.complete_iff (hmove : Refines step board drops) (hr : Run step s as t)
    (hs : (board s).Sound) (hcomplete : (board s).Complete) :
    (board t).Complete ↔ ∀ a ∈ as, drops a = false := by
  induction hr with
  | nil s => simpa using hcomplete
  | @cons s a u as t hstep hr ih =>
    obtain ⟨m, hm, hdrops⟩ := hmove s a u hstep
    rw [List.forall_mem_cons]
    cases hd : drops a with
    | false => simp [ih (hm.sound hs) (hm.complete (hdrops.trans hd) hcomplete)]
    | true =>
      obtain ⟨k, hk⟩ := hm.strands (hdrops.trans hd) hs
      simp [not_complete_iff.mpr ⟨k, hmove.stranded hr hk⟩]

end Refinement

end JobBoard

end Machine
