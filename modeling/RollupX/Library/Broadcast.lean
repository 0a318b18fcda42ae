import RollupX.Library.Run

/-! A broadcast channel over a ring buffer. The ring holds the last `capacity` items of all that
were sent. A receiver is a position among them. -/

namespace Machine

variable {α : Type*}

inductive RecvResult (α : Type*) where
  | item (a : α)
  | lagged (missed : ℕ)
  | empty
  deriving DecidableEq, Repr

/-- What a receiver at `next` gets, and where it is then. -/
def recv (capacity : ℕ) (sent : List α) (next : ℕ) : RecvResult α × ℕ :=
  if next + capacity < sent.length then
    (.lagged (sent.length - capacity - next), sent.length - capacity)
  else
    match sent[next]? with
    | some a => (.item a, next + 1)
    | none => (.empty, next)

/-- A receiver whose reader passes over the errors, and the items it has handed on. -/
structure Feed (α : Type*) where
  next : ℕ
  received : List α
  deriving DecidableEq, Repr

namespace Feed

def read (capacity : ℕ) (sent : List α) (f : Feed α) : Feed α :=
  match recv capacity sent f.next with
  | (.item a, next) => ⟨next, f.received ++ [a]⟩
  | (.lagged _, next) => ⟨next, f.received⟩
  | (.empty, next) => ⟨next, f.received⟩

def KeepsUp (capacity : ℕ) (sent : List α) (f : Feed α) : Prop :=
  sent.length ≤ f.next + capacity

instance (capacity : ℕ) (sent : List α) (f : Feed α) : Decidable (f.KeepsUp capacity sent) :=
  inferInstanceAs (Decidable (sent.length ≤ f.next + capacity))

/-- Nothing sent from position `start` on was passed over. -/
structure Complete (start : ℕ) (sent : List α) (f : Feed α) : Prop where
  next_le : f.next ≤ sent.length
  next_eq : f.next = start + f.received.length
  received : f.received = (sent.drop start).take f.received.length

/-- Something was passed over for good. -/
structure Gap (start : ℕ) (sent : List α) (f : Feed α) : Prop where
  next_le : f.next ≤ sent.length
  lt_next : start + f.received.length < f.next

variable {capacity start : ℕ} {sent sent' : List α} {f : Feed α}

theorem Complete.init (sent : List α) : Complete sent.length sent ⟨sent.length, []⟩ :=
  ⟨Nat.le_refl _, rfl, rfl⟩

theorem Gap.not_complete (h : Gap start sent f) : ¬Complete start sent f := by
  intro hc
  have := h.lt_next
  have := hc.next_eq
  omega

theorem Complete.append (h : Complete start sent f) (later : List α) :
    Complete start (sent ++ later) f := by
  have hnext := h.next_eq
  have hle := h.next_le
  refine ⟨by simp only [List.length_append]; omega, hnext, ?_⟩
  rw [List.drop_append_of_le_length (by omega), List.take_append_of_le_length]
  · exact h.received
  · simp only [List.length_drop]
    omega

theorem Gap.append (h : Gap start sent f) (later : List α) : Gap start (sent ++ later) f := by
  have := h.next_le
  exact ⟨by simp only [List.length_append]; omega, h.lt_next⟩

theorem read_keepsUp (hkeep : f.KeepsUp capacity sent) :
    f.read capacity sent =
      match sent[f.next]? with
      | some a => ⟨f.next + 1, f.received ++ [a]⟩
      | none => f := by
  have hring : ¬f.next + capacity < sent.length := Nat.not_lt.mpr hkeep
  rw [read, recv, if_neg hring]
  cases sent[f.next]? with
  | some a => rfl
  | none => rfl

theorem read_lagged (hlag : ¬f.KeepsUp capacity sent) :
    f.read capacity sent = ⟨sent.length - capacity, f.received⟩ := by
  rw [read, recv, if_pos (Nat.lt_of_not_le hlag)]

theorem received_append_drop (capacity : ℕ) (sent : List α) (f : Feed α) :
    f.received ++ (f.read capacity sent).received.drop f.received.length =
      (f.read capacity sent).received := by
  by_cases hkeep : f.KeepsUp capacity sent
  · rw [read_keepsUp hkeep]
    cases sent[f.next]? with
    | some a => simp
    | none => simp
  · rw [read_lagged hkeep]
    simp

theorem Complete.read (h : Complete start sent f) (hkeep : f.KeepsUp capacity sent) :
    Complete start sent (f.read capacity sent) := by
  rw [read_keepsUp hkeep]
  have hnext := h.next_eq
  cases hget : sent[f.next]? with
  | none => exact h
  | some a =>
    obtain ⟨hlt, ha⟩ := List.getElem?_eq_some_iff.mp hget
    refine ⟨hlt, by simp only [List.length_append, List.length_singleton]; omega, ?_⟩
    have hone : (sent.drop start)[f.received.length]? = some a := by
      rw [List.getElem?_drop, ← hnext]
      exact hget
    simp only [List.length_append, List.length_singleton]
    rw [List.take_add_one, hone, ← h.received]
    rfl

theorem Complete.gap_of_lagged (h : Complete start sent f)
    (hlag : ¬f.KeepsUp capacity sent) : Gap start sent (f.read capacity sent) := by
  rw [read_lagged hlag]
  have := h.next_eq
  have : f.next + capacity < sent.length := Nat.lt_of_not_le hlag
  exact ⟨Nat.sub_le _ _, by simp only; omega⟩

theorem Gap.read (h : Gap start sent f) : Gap start sent (f.read capacity sent) := by
  have hlt := h.lt_next
  by_cases hkeep : f.KeepsUp capacity sent
  · rw [read_keepsUp hkeep]
    cases hget : sent[f.next]? with
    | none => exact h
    | some a =>
      obtain ⟨hnext, -⟩ := List.getElem?_eq_some_iff.mp hget
      exact ⟨hnext, by simp only [List.length_append, List.length_singleton]; omega⟩
  · rw [read_lagged hkeep]
    have : f.next + capacity < sent.length := Nat.lt_of_not_le hkeep
    exact ⟨Nat.sub_le _ _, by simp only; omega⟩

section Reader

variable {σ ι : Type*} {step : σ → ι → σ → Prop} {items : σ → List α} {feed : σ → Feed α}
  {reads : ι → Bool}

/-- Each step sends something or nothing, or is a read. -/
def Reads (capacity : ℕ) (step : σ → ι → σ → Prop) (items : σ → List α) (feed : σ → Feed α)
    (reads : ι → Bool) : Prop :=
  ∀ s a t, step s a t →
    if reads a then items t = items s ∧ feed t = (feed s).read capacity (items s)
    else feed t = feed s ∧ ∃ later, items t = items s ++ later

theorem Reads.gap (hreads : Reads capacity step items feed reads) {s t : σ} {as : List ι}
    (hr : Run step s as t) (hs : Gap start (items s) (feed s)) :
    Gap start (items t) (feed t) := by
  refine hr.invariant_of_step (I := fun s => Gap start (items s) (feed s)) ?_ hs
  intro s a t h hstep
  have hst := hreads s a t hstep
  split at hst
  · rw [hst.1, hst.2]
    exact h.read
  · obtain ⟨hfeed, later, hitems⟩ := hst
    rw [hfeed, hitems]
    exact h.append later

theorem Reads.complete_or_gap (hreads : Reads capacity step items feed reads) {s t : σ}
    {as : List ι} (hr : Run step s as t) (hs : Complete start (items s) (feed s)) :
    Complete start (items t) (feed t) ∨ Gap start (items t) (feed t) := by
  refine hr.invariant_of_step
    (I := fun s => Complete start (items s) (feed s) ∨ Gap start (items s) (feed s)) ?_ (.inl hs)
  intro s a t h hstep
  have hst := hreads s a t hstep
  split at hst
  · rw [hst.1, hst.2]
    rcases h with h | h
    · by_cases hkeep : (feed s).KeepsUp capacity (items s)
      · exact .inl (h.read hkeep)
      · exact .inr (h.gap_of_lagged hkeep)
    · exact .inr h.read
  · obtain ⟨hfeed, later, hitems⟩ := hst
    rw [hfeed, hitems]
    exact h.imp (·.append later) (·.append later)

/-- A reader has passed nothing over if and only if at each read it was no further behind
than the ring is long. -/
theorem Reads.complete_iff (hreads : Reads capacity step items feed reads)
    (hdet : ∀ s a t t', step s a t → step s a t' → t = t') {s t : σ} {as : List ι}
    (hr : Run step s as t) (hs : Complete start (items s) (feed s)) :
    Complete start (items t) (feed t) ↔
      Along step (fun s a => reads a = true → (feed s).KeepsUp capacity (items s)) s as := by
  induction hr with
  | nil s => exact ⟨fun _ => trivial, fun _ => hs⟩
  | @cons s a u as t hstep hr ih =>
    have hst := hreads s a u hstep
    have hone : (∀ t', step s a t' → Along step
          (fun s a => reads a = true → (feed s).KeepsUp capacity (items s)) t' as) ↔
        Along step (fun s a => reads a = true → (feed s).KeepsUp capacity (items s)) u as := by
      constructor
      · exact fun h => h u hstep
      · intro h t' ht'
        rw [hdet s a t' u ht' hstep]
        exact h
    rw [Along, hone]
    cases hread : reads a with
    | false =>
      simp only [hread] at hst
      obtain ⟨hfeed, later, hitems⟩ := hst
      have hu : Complete start (items u) (feed u) := by
        rw [hfeed, hitems]
        exact hs.append later
      simp [ih hu]
    | true =>
      simp only [hread, if_true] at hst
      by_cases hkeep : (feed s).KeepsUp capacity (items s)
      · have hu : Complete start (items u) (feed u) := by
          rw [hst.1, hst.2]
          exact hs.read hkeep
        simp [ih hu, hkeep]
      · have hgap : Gap start (items u) (feed u) := by
          rw [hst.1, hst.2]
          exact hs.gap_of_lagged hkeep
        simp [hkeep, (hreads.gap hr hgap).not_complete]

end Reader

end Feed

end Machine
