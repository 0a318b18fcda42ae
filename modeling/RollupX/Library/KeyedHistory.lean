import Mathlib.Data.List.Basic
import Mathlib.Logic.Function.Basic

/-! Histories of writes to keyed values. Each write records the value it found and the
value it left. In the log of a run from some state, each write finds what the last write to
its key left. -/

structure Write (K V : Type*) where
  key : K
  old : V
  new : V

namespace Write

variable {K V : Type*}

/-- Each write finds what the last write to its key before it left. -/
def Linked (ws : List (Write K V)) : Prop :=
  ∀ before w between w' later, ws = before ++ w :: (between ++ w' :: later) →
    w'.key = w.key → (∀ m ∈ between, m.key ≠ w.key) → w'.old = w.new

variable [DecidableEq K]

/-- Each write finds the value of the state it is applied to. -/
def Replays : (K → V) → List (Write K V) → Prop
  | _, [] => True
  | s, w :: ws => s w.key = w.old ∧ Replays (Function.update s w.key w.new) ws

def applyAll (s : K → V) (ws : List (Write K V)) : K → V :=
  ws.foldl (fun s w => Function.update s w.key w.new) s

theorem applyAll_append (s : K → V) (ws ws' : List (Write K V)) :
    applyAll s (ws ++ ws') = applyAll (applyAll s ws) ws' :=
  List.foldl_append

theorem replays_append_iff {s : K → V} {ws ws' : List (Write K V)} :
    Replays s (ws ++ ws') ↔ Replays s ws ∧ Replays (applyAll s ws) ws' := by
  induction ws generalizing s with
  | nil => simp [Replays, applyAll]
  | cons w ws ih =>
    simp only [List.cons_append, Replays, ih, and_assoc]
    rfl

theorem applyAll_congr {s s' : K → V} {k : K} (h : s k = s' k) (ws : List (Write K V)) :
    applyAll s ws k = applyAll s' ws k := by
  induction ws generalizing s s' with
  | nil => exact h
  | cons w ws ih =>
    refine ih (?_ : Function.update s w.key w.new k = Function.update s' w.key w.new k)
    rw [Function.update_apply, Function.update_apply, h]

theorem applyAll_of_not_mem {s : K → V} {k : K} {ws : List (Write K V)}
    (h : ∀ m ∈ ws, m.key ≠ k) : applyAll s ws k = s k := by
  induction ws generalizing s with
  | nil => rfl
  | cons w ws ih =>
    have hw : k ≠ w.key := (h w List.mem_cons_self).symm
    have hws : ∀ m ∈ ws, m.key ≠ k := fun m hm => h m (List.mem_cons_of_mem w hm)
    change applyAll (Function.update s w.key w.new) ws k = s k
    rw [ih hws, Function.update_of_ne hw]

theorem Replays.linked {s : K → V} {ws : List (Write K V)} (h : Replays s ws) :
    Linked ws := by
  intro before w between w' later hws hkey hbetween
  rw [hws, replays_append_iff] at h
  obtain ⟨-, -, hrest⟩ := h
  obtain ⟨-, hfound, -⟩ := replays_append_iff.mp hrest
  rw [hkey, applyAll_of_not_mem hbetween, Function.update_self] at hfound
  exact hfound.symm

end Write
