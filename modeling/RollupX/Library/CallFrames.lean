import Mathlib.Logic.Basic
import Mathlib.Data.List.Basic

/-! Calls that can be entered again before they return. A call in progress keeps the state
from before it, and a failure restores that state with all that has happened since. -/

/-- The present state, and the calls in progress, innermost first: for each the state it
was entered in and what is needed to finish it. -/
structure CallFrames (β κ : Type*) where
  current : β
  stack : List (β × κ)

namespace CallFrames

variable {β κ : Type*}

def start (b : β) : CallFrames β κ :=
  ⟨b, []⟩

def update (c : CallFrames β κ) (b : β) : CallFrames β κ :=
  { c with current := b }

def enter (c : CallFrames β κ) (b : β) (k : κ) : CallFrames β κ :=
  ⟨b, (c.current, k) :: c.stack⟩

/-- The innermost call returns, in the state that `finish` makes of the present one. -/
def leave (c : CallFrames β κ) (finish : κ → β → β) : Option (CallFrames β κ) :=
  match c.stack with
  | [] => none
  | (_, k) :: rest => some ⟨finish k c.current, rest⟩

def rollback (c : CallFrames β κ) : Option (CallFrames β κ) :=
  match c.stack with
  | [] => none
  | (saved, _) :: rest => some ⟨saved, rest⟩

/-- `P` holds now and of every state that a failure can bring back. -/
structure All (P : β → Prop) (c : CallFrames β κ) : Prop where
  current : P c.current
  saved : ∀ frame ∈ c.stack, P frame.1

variable {P : β → Prop} {c c' : CallFrames β κ}

theorem all_start {b : β} (h : P b) : (start b : CallFrames β κ).All P :=
  ⟨h, by simp [start]⟩

/-- The same calls, seen through `f`. -/
def map {γ : Type*} (f : β → γ) (c : CallFrames β κ) : CallFrames γ κ :=
  ⟨f c.current, c.stack.map fun frame => (f frame.1, frame.2)⟩

@[simp] theorem map_id : (map id : CallFrames β κ → CallFrames β κ) = id := by
  funext c
  simp [map]

/-- What one step can do: `effect` relates the innermost states before and after it,
`opens` holds of the calls it may open, and it may close or undo a call only if `closes`
or `undoes` holds. -/
inductive Step (effect : β → β → Prop) (opens : κ → Prop) (closes undoes : Prop)
    (c : CallFrames β κ) : CallFrames β κ → Prop where
  | stay : Step effect opens closes undoes c c
  | update {b : β} : effect c.current b → Step effect opens closes undoes c (c.update b)
  | enter {b : β} {k : κ} : opens k → effect c.current b →
      Step effect opens closes undoes c (c.enter b k)
  | leave {b saved : β} {k : κ} {rest : List (β × κ)} : closes →
      c.stack = (saved, k) :: rest → effect c.current b →
      Step effect opens closes undoes c ⟨b, rest⟩
  | rollback {saved : β} {k : κ} {rest : List (β × κ)} : undoes →
      c.stack = (saved, k) :: rest → Step effect opens closes undoes c ⟨saved, rest⟩

variable {effect : β → β → Prop} {opens : κ → Prop} {closes undoes : Prop}

theorem Step.mono {effect' : β → β → Prop} (hstep : Step effect opens closes undoes c c')
    (himp : ∀ b b', effect b b' → effect' b b') : Step effect' opens closes undoes c c' := by
  cases hstep with
  | stay => exact .stay
  | update he => exact .update (himp _ _ he)
  | enter hopen he => exact .enter hopen (himp _ _ he)
  | leave hclose hstack he => exact .leave hclose hstack (himp _ _ he)
  | rollback hundo hstack => exact .rollback hundo hstack

theorem Step.current (hstep : Step effect opens closes undoes c c') (hundo : ¬undoes) :
    c'.current = c.current ∨ effect c.current c'.current := by
  cases hstep with
  | stay => exact .inl rfl
  | update he | enter hopen he | leave hclose hstack he => exact .inr he
  | rollback h hstack => exact absurd h hundo

/-- `P` holds now and of every state saved since the stack was `base`. -/
structure Above (base : List (β × κ)) (P : β → Prop) (c : CallFrames β κ) : Prop where
  current : P c.current
  saved : ∃ upper, c.stack = upper ++ base ∧ ∀ frame ∈ upper, P frame.1

theorem Step.above {base : List (β × κ)} (hstep : Step effect opens closes undoes c c')
    (h : c.Above base P) (hbase : closes ∨ undoes → base.length < c.stack.length)
    (heffect : ∀ b, effect c.current b → P c.current → P b) : c'.Above base P := by
  obtain ⟨hcurrent, upper, hupper, hsaved⟩ := h
  have hpop : ∀ {frame : β × κ} {rest : List (β × κ)}, c.stack = frame :: rest →
      base.length < c.stack.length → ∃ upper', upper = frame :: upper' ∧ rest = upper' ++ base := by
    intro frame rest hstack hlt
    rw [hupper] at hstack hlt
    cases upper with
    | nil => exact absurd hlt (Nat.lt_irrefl _)
    | cons top upper' =>
      rw [List.cons_append, List.cons.injEq] at hstack
      exact ⟨upper', by rw [hstack.1], hstack.2.symm⟩
  cases hstep with
  | stay => exact ⟨hcurrent, upper, hupper, hsaved⟩
  | update he => exact ⟨heffect _ he hcurrent, upper, hupper, hsaved⟩
  | @enter b k hopen he =>
    refine ⟨heffect _ he hcurrent, (c.current, k) :: upper, ?_, ?_⟩
    · rw [List.cons_append, ← hupper]
      rfl
    · intro frame hframe
      rcases List.mem_cons.mp hframe with rfl | hframe
      · exact hcurrent
      · exact hsaved frame hframe
  | leave hclose hstack he =>
    obtain ⟨upper', rfl, hrest⟩ := hpop hstack (hbase (.inl hclose))
    exact ⟨heffect _ he hcurrent, upper', hrest,
      fun frame hframe => hsaved frame (List.mem_cons_of_mem _ hframe)⟩
  | rollback hundo hstack =>
    obtain ⟨upper', rfl, hrest⟩ := hpop hstack (hbase (.inr hundo))
    exact ⟨hsaved _ List.mem_cons_self, upper', hrest,
      fun frame hframe => hsaved frame (List.mem_cons_of_mem _ hframe)⟩

theorem Step.all (hstep : Step effect opens closes undoes c c') (h : c.All P)
    (heffect : ∀ b, effect c.current b → P c.current → P b) : c'.All P := by
  have hmem : ∀ {frame : β × κ} {rest : List (β × κ)}, c.stack = frame :: rest →
      P frame.1 ∧ ∀ frame' ∈ rest, P frame'.1 := by
    intro frame rest hstack
    exact List.forall_mem_cons.mp (hstack ▸ h.saved)
  cases hstep with
  | stay => exact h
  | update he => exact ⟨heffect _ he h.current, h.saved⟩
  | enter hopen he =>
    exact ⟨heffect _ he h.current, List.forall_mem_cons.mpr ⟨h.current, h.saved⟩⟩
  | leave hclose hstack he => exact ⟨heffect _ he h.current, (hmem hstack).2⟩
  | rollback hundo hstack => exact ⟨(hmem hstack).1, (hmem hstack).2⟩

end CallFrames
