import RollupX.Verification.Submitter.CircuitBreaker

/-! The locks of the breaker under concurrent calls. -/

namespace RollupX.Submitter

open Locks Locks.Code Machine

/-- A lock that a call asks for, with those that it holds. The last two are against each
other. -/
inductive Requests (crossing : Prop) : List BreakerLock → BreakerLock → Prop where
  | state : Requests crossing [] .circuitState
  | count : Requests crossing [] .failureCount
  | openedAt : Requests crossing [.circuitState] .lastFailure
  | failedAt : Requests crossing [.failureCount] .lastFailure
  | recovery (h : crossing) : Requests crossing [.circuitState] .failureCount
  | trip (h : crossing) : Requests crossing [.failureCount] .circuitState

variable {crossing : Prop} {p : HttpProofProvider}

theorem checkCircuit_follows (now : ℕ) :
    (checkCircuit now).Follows (Requests crossing) [] [] := by
  rw [checkCircuit, Code.follows_acquire_bind, Code.follows_fetch_bind]
  refine ⟨.state, fun b => ?_⟩
  cases b.circuitState with
  | closed => simp
  | halfOpen => simp
  | opened =>
    simp only [Code.follows_acquire_bind, Code.follows_fetch_bind, Code.follows_release_bind]
    refine ⟨.openedAt, fun b => ⟨by simp, ?_⟩⟩
    split
    · simp
    · simp

theorem recordSuccess_follows : recordSuccess.Follows (Requests True) [] [] := by
  rw [recordSuccess, Code.follows_acquire_bind, Code.follows_fetch_bind]
  refine ⟨.state, fun b => ?_⟩
  split
  · simp [Requests.recovery]
  · simp

theorem recordFailure_follows (now : ℕ) :
    (recordFailure p now).Follows (Requests True) [] [] := by
  rw [recordFailure, Code.follows_acquire_bind, Code.follows_fetch_bind]
  refine ⟨.count, fun b => ?_⟩
  split
  · simp
  · simp only [Code.follows_acquire_bind, Code.follows_update_bind, Code.follows_release_bind,
      Code.follows_fetch_bind]
    refine ⟨.failedAt, by simp, fun b => ?_⟩
    split
    · simp [Requests.trip]
    · simp

theorem getProof_follows (call : ProofCall) :
    (getProof p call).Follows (Requests True) [] [] := by
  refine (checkCircuit_follows call.checkedAt).bind fun checked => ?_
  cases checked with
  | error e => simp
  | ok _ =>
    cases retry call.attempt call.further with
    | ok proof => exact recordSuccess_follows.bind fun _ => by simp
    | error e =>
      refine (recordFailure_follows call.failedAt).bind fun recorded => ?_
      cases recorded <;> simp

theorem Requests.below {held : List BreakerLock} {l l' : BreakerLock}
    (h : Requests crossing held l) (hheld : l' ∈ held) :
    (l = .lastFailure ∧ l' ≠ .lastFailure) ∨
      (crossing ∧ l = .failureCount ∧ l' = .circuitState) ∨
      (crossing ∧ l = .circuitState ∧ l' = .failureCount) := by
  cases h with
  | state | count => cases hheld
  | openedAt | failedAt =>
    cases List.mem_singleton.mp hheld
    exact .inl (by decide)
  | recovery hcrossing =>
    cases List.mem_singleton.mp hheld
    exact .inr (.inl ⟨hcrossing, rfl, rfl⟩)
  | trip hcrossing =>
    cases List.mem_singleton.mp hheld
    exact .inr (.inr ⟨hcrossing, rfl, rfl⟩)

/-- Two orders of the locks. Each is kept by all requests but one. -/
def stateFirst : BreakerLock → ℕ
  | .circuitState => 0
  | .failureCount => 1
  | .lastFailure => 2

def countFirst : BreakerLock → ℕ
  | .failureCount => 0
  | .circuitState => 1
  | .lastFailure => 2

abbrev BreakerTask := Task BreakerLock Breaker CallResult

variable {pool pool' : Pool BreakerLock Breaker CallResult}

/-- A deadlock has a call that breaks the order `rank`, and its request is one that is made. -/
theorem exists_inverted (hsound : Sound (Requests crossing) pool) (h : pool.Deadlocked)
    (rank : BreakerLock → ℕ) :
    ∃ t ∈ pool.tasks, ∃ l l', Requests crossing t.held l ∧ t.awaits = some l ∧
      l' ∈ t.held ∧ rank l ≤ rank l' := by
  obtain ⟨i, l, l', ⟨t, ht, hawaits⟩, ⟨t', ht', hheld⟩, hrank⟩ := h.exists_inversion rank
  cases ht.symm.trans ht'
  have hmem := List.mem_of_getElem? ht
  exact ⟨t, hmem, l, l', hsound.requests hmem hawaits, hawaits, hheld, hrank⟩

theorem exists_awaits_count (hsound : Sound (Requests crossing) pool) (h : pool.Deadlocked) :
    ∃ t ∈ pool.tasks, t.awaits = some .failureCount ∧ .circuitState ∈ t.held := by
  obtain ⟨t, ht, l, l', hrequest, hawaits, hheld, hrank⟩ := exists_inverted hsound h countFirst
  rcases hrequest.below hheld with ⟨rfl, hl'⟩ | ⟨-, rfl, rfl⟩ | ⟨-, rfl, rfl⟩
  · cases l' <;> simp_all [countFirst]
  · exact ⟨t, ht, hawaits, hheld⟩
  · exact absurd hrank (by decide)

theorem exists_awaits_state (hsound : Sound (Requests crossing) pool) (h : pool.Deadlocked) :
    ∃ t ∈ pool.tasks, t.awaits = some .circuitState ∧ .failureCount ∈ t.held := by
  obtain ⟨t, ht, l, l', hrequest, hawaits, hheld, hrank⟩ := exists_inverted hsound h stateFirst
  rcases hrequest.below hheld with ⟨rfl, hl'⟩ | ⟨-, rfl, rfl⟩ | ⟨-, rfl, rfl⟩
  · cases l' <;> simp_all [stateFirst]
  · exact absurd hrank (by decide)
  · exact ⟨t, ht, hawaits, hheld⟩

theorem sound_of_calls {now : ℕ} {events : List (TaskEvent ProofCall)}
    (hr : Run (PoolStep (getProof p)) (Pool.empty (Breaker.new now)) events pool) :
    Sound (Requests True) pool :=
  sound_of_run (fun call _ => getProof_follows call) hr

def resetCount : Code BreakerLock Breaker Unit := do
  acquire .failureCount
  update fun b => { b with failureCount := 0 }
  release .failureCount
  release .circuitState

def closeCircuit : Code BreakerLock Breaker Unit := do
  update fun b => { b with circuitState := .closed }
  resetCount

/-- `record_success`, with the state locked. -/
def successTest : Code BreakerLock Breaker Unit := do
  if (← fetch).circuitState ≠ .closed then
    closeCircuit
  else
    release .circuitState

def openCircuit : Code BreakerLock Breaker Bool := do
  acquire .circuitState
  update fun b => { b with circuitState := .opened }
  release .circuitState
  release .failureCount
  return true

/-- `record_failure`, with the failure counted and dated. -/
def thresholdTest (p : HttpProofProvider) : Code BreakerLock Breaker Bool := do
  if p.failureThreshold ≤ (← fetch).failureCount then
    openCircuit
  else
    release .failureCount
    return true

/-- The call holds the locks `held`, and has `c` and then code that takes no lock to run. -/
def Stands {ρ : Type} (held : List BreakerLock) (c : Code BreakerLock Breaker ρ)
    (t : BreakerTask) : Prop :=
  t.held = held ∧ ∃ k, t.code = c >>= k ∧ ∀ r, (k r).Follows (Requests False) [] []

def AtSuccessTest (t : BreakerTask) : Prop :=
  Stands [.circuitState] successTest t

def AtThresholdTest (p : HttpProofProvider) (t : BreakerTask) : Prop :=
  Stands [.failureCount] (thresholdTest p) t

/-- In `record_success`, past the test and still without the count. -/
def Closing (t : BreakerTask) : Prop :=
  Stands [.circuitState] closeCircuit t ∨ Stands [.circuitState] resetCount t

/-- In `record_failure`, past the test and still without the state. -/
def Opening (t : BreakerTask) : Prop :=
  Stands [.failureCount] openCircuit t

/-- The call asks for no lock against the order before it comes to one of the tests. -/
def Clear (p : HttpProofProvider) (t : BreakerTask) : Prop :=
  Until (Requests False)
    (fun held code => AtSuccessTest ⟨held, code⟩ ∨ AtThresholdTest p ⟨held, code⟩) t.held t.code

theorem clear_recordFailure (now : ℕ) {k : Bool → Code BreakerLock Breaker CallResult}
    (hk : ∀ r, (k r).Follows (Requests False) [] []) :
    Clear p ⟨[], recordFailure p now >>= k⟩ := by
  refine .lock .count (.read fun b => ?_)
  have hsplit : Clear p ⟨[.failureCount],
      (if p.overflowChecks ∧ b.failureCount = 0xffffffff then
        (do release .failureCount; return false)
      else do
        update fun b => { b with failureCount := b.failureCount + 1 }
        acquire .lastFailure
        update fun b => { b with lastFailure := now }
        release .lastFailure
        thresholdTest p) >>= k⟩ := by
    split
    · exact .unlock (.of_follows (hk false))
    · exact .write (.lock .failedAt (.write (.unlock (.place (.inr ⟨rfl, k, rfl, hk⟩)))))
  exact hsplit

theorem clear_start (call : ProofCall) : Clear p (Task.start (getProof p call)) := by
  refine (checkCircuit_follows call.checkedAt).until fun checked => ?_
  cases checked with
  | error e => exact .ret _
  | ok _ =>
    cases retry call.attempt call.further with
    | ok proof => exact .lock .state (.place (.inl ⟨rfl, _, rfl, fun _ => rfl⟩))
    | error e =>
      refine clear_recordFailure call.failedAt fun recorded => ?_
      cases recorded <;> rfl

/-- Where a call can stand. -/
def Stage (p : HttpProofProvider) (t : BreakerTask) : Prop :=
  Clear p t ∨ Closing t ∨ Opening t

variable {t t' : BreakerTask} {s s' : Shared BreakerLock Breaker}

theorem AtSuccessTest.step (h : AtSuccessTest t) (he : t.Effect s s' t') :
    Clear p t' ∨ (Closing t' ∧ s.data.circuitState ≠ .closed) := by
  obtain ⟨held, code⟩ := t
  obtain ⟨rfl, k, rfl, hk⟩ := h
  cases he <;> cases ‹_ = _›
  change Clear p ⟨_, (if s.data.circuitState ≠ .closed then closeCircuit else _) >>= k⟩ ∨
    (Closing ⟨_, (if s.data.circuitState ≠ .closed then closeCircuit else _) >>= k⟩ ∧ _)
  split
  · exact .inr ⟨.inl ⟨rfl, k, rfl, hk⟩, ‹_›⟩
  · exact .inl (.unlock (.of_follows (hk ())))

theorem AtThresholdTest.step (h : AtThresholdTest p t) (he : t.Effect s s' t') :
    Clear p t' ∨ (Opening t' ∧ p.failureThreshold ≤ s.data.failureCount) := by
  obtain ⟨held, code⟩ := t
  obtain ⟨rfl, k, rfl, hk⟩ := h
  cases he <;> cases ‹_ = _›
  change Clear p ⟨_, (if p.failureThreshold ≤ s.data.failureCount then openCircuit else _) >>= k⟩ ∨
    (Opening ⟨_, (if p.failureThreshold ≤ s.data.failureCount then openCircuit else _) >>= k⟩ ∧ _)
  split
  · exact .inr ⟨⟨rfl, k, rfl, hk⟩, ‹_›⟩
  · exact .inl (.unlock (.of_follows (hk true)))

theorem Closing.step (h : Closing t) (he : t.Effect s s' t') : Clear p t' ∨ Closing t' := by
  obtain ⟨held, code⟩ := t
  rcases h with ⟨rfl, k, rfl, hk⟩ | ⟨rfl, k, rfl, hk⟩
  · cases he <;> cases ‹_ = _›
    exact .inr (.inr ⟨rfl, k, rfl, hk⟩)
  · cases he <;> cases ‹_ = _›
    exact .inl (.write (.unlock (.unlock (.of_follows (hk ())))))

theorem Opening.step (h : Opening t) (he : t.Effect s s' t') : Clear p t' := by
  obtain ⟨held, code⟩ := t
  obtain ⟨rfl, k, rfl, hk⟩ := h
  cases he <;> cases ‹_ = _›
  exact .write (.unlock (.unlock (.of_follows (hk true))))

/-- One step of a call. It gets past a test only by passing it. -/
theorem Stage.step (h : Stage p t) (he : t.Effect s s' t') :
    Clear p t' ∨
      (Closing t' ∧ (Closing t ∨ AtSuccessTest t ∧ s.data.circuitState ≠ .closed)) ∨
      (Opening t' ∧ AtThresholdTest p t ∧ p.failureThreshold ≤ s.data.failureCount) := by
  rcases h with hclear | hclosing | hopening
  · rcases he.until hclear with (htest | htest) | hclear'
    · rcases htest.step (p := p) he with hclear' | ⟨hclosing', hstate⟩
      · exact .inl hclear'
      · exact .inr (.inl ⟨hclosing', .inr ⟨htest, hstate⟩⟩)
    · rcases htest.step he with hclear' | ⟨hopening', hcount⟩
      · exact .inl hclear'
      · exact .inr (.inr ⟨hopening', htest, hcount⟩)
    · exact .inl hclear'
  · rcases hclosing.step (p := p) he with hclear' | hclosing'
    · exact .inl hclear'
    · exact .inr (.inl ⟨hclosing', .inl hclosing⟩)
  · exact .inl (hopening.step he)

theorem Clear.requests (h : Clear p t) {l : BreakerLock} (hawaits : t.awaits = some l) :
    Requests False t.held l := by
  obtain ⟨held, code⟩ := t
  cases h with
  | place htest => rcases htest with ⟨-, k, rfl, -⟩ | ⟨-, k, rfl, -⟩ <;> cases hawaits
  | lock hrequest hk =>
    cases hawaits
    exact hrequest
  | _ => cases hawaits

/-- With a lock in hand, such a call asks for `last_failure` only. -/
theorem Clear.eq_lastFailure (h : Clear p t) {l l' : BreakerLock} (hawaits : t.awaits = some l)
    (hheld : l' ∈ t.held) : l = .lastFailure := by
  rcases (h.requests hawaits).below hheld with ⟨hl, -⟩ | ⟨hcross, -⟩ | ⟨hcross, -⟩
  · exact hl
  · exact hcross.elim
  · exact hcross.elim

theorem Closing.not_clear (h : Closing t) : ¬Clear p t := by
  obtain ⟨held, code⟩ := t
  intro hclear
  have hreset : ∀ k, ¬Clear p ⟨[.circuitState], resetCount >>= k⟩ := by
    intro k hclear
    cases hclear.requests rfl with
    | recovery h => exact h
  rcases h with ⟨rfl, k, rfl, -⟩ | ⟨rfl, k, rfl, -⟩
  · cases hclear with
    | place htest => rcases htest with ⟨-, k, hcode, -⟩ | ⟨-, k, hcode, -⟩ <;> cases hcode
    | write hk => exact hreset k hk
  · exact hreset k hclear

theorem Opening.not_clear (h : Opening t) : ¬Clear p t := by
  obtain ⟨held, code⟩ := t
  obtain ⟨rfl, k, rfl, -⟩ := h
  intro hclear
  cases hclear.requests rfl with
  | trip h => exact h

theorem Closing.held (h : Closing t) : t.held = [.circuitState] := by
  rcases h with hclosing | hclosing <;> exact hclosing.1

theorem Closing.not_opening (h : Closing t) : ¬Opening t := by
  intro hopening
  cases h.held.symm.trans hopening.1

theorem Stage.closing (h : Stage p t) (hawaits : t.awaits = some .failureCount)
    (hheld : .circuitState ∈ t.held) : Closing t := by
  rcases h with hclear | hclosing | hopening
  · cases hclear.eq_lastFailure hawaits hheld
  · exact hclosing
  · rw [hopening.1] at hheld
    simp at hheld

theorem Stage.opening (h : Stage p t) (hawaits : t.awaits = some .circuitState)
    (hheld : .failureCount ∈ t.held) : Opening t := by
  rcases h with hclear | hclosing | hopening
  · cases hclear.eq_lastFailure hawaits hheld
  · rw [hclosing.held] at hheld
    simp at hheld
  · exact hopening

/-- No call passes the test of `record_success` while another waits in `record_failure` to open
the circuit, and none passes the test of `record_failure` while another is about to reset the
count in `record_success`. -/
def TestsApart (p : HttpProofProvider) (pool : Pool BreakerLock Breaker CallResult) :
    TaskEvent ProofCall → Prop
  | .spawn _ => True
  | .advance i => ∀ t, pool.tasks[i]? = some t →
      (AtSuccessTest t → pool.shared.data.circuitState ≠ .closed →
        ∀ u ∈ pool.tasks, ¬Opening u) ∧
      (AtThresholdTest p t → p.failureThreshold ≤ pool.shared.data.failureCount →
        ∀ u ∈ pool.tasks, ¬Closing u)

/-- No call is past the one test while another is past the other. -/
structure Apart (p : HttpProofProvider) (pool : Pool BreakerLock Breaker CallResult) : Prop where
  stages : ∀ t ∈ pool.tasks, Stage p t
  apart : (∀ t ∈ pool.tasks, ¬Closing t) ∨ ∀ t ∈ pool.tasks, ¬Opening t

theorem Apart.step {event : TaskEvent ProofCall} (h : Apart p pool)
    (htests : TestsApart p pool event) (hstep : PoolStep (getProof p) pool event pool') :
    Apart p pool' := by
  cases event with
  | spawn call =>
    obtain rfl := TaskPool.step_spawn_iff.mp hstep
    have hclear := clear_start (p := p) call
    refine ⟨?_, h.apart.imp (fun hnone => ?_) fun hnone => ?_⟩ <;>
      rw [List.forall_mem_append, List.forall_mem_singleton]
    · exact ⟨h.stages, .inl hclear⟩
    · exact ⟨hnone, fun hclosing => hclosing.not_clear hclear⟩
    · exact ⟨hnone, fun hopening => hopening.not_clear hclear⟩
  | advance i =>
    obtain ⟨before, t, later, t', htasks, hget, hrun, htasks'⟩ := hstep.advance
    have hmem := List.mem_of_getElem? hget
    have hall {P : BreakerTask → Prop} (hP : ∀ u ∈ pool.tasks, P u) (ht' : P t') :
        ∀ u ∈ pool'.tasks, P u := by
      rw [htasks, List.forall_mem_append, List.forall_mem_cons] at hP
      rw [htasks', List.forall_mem_append, List.forall_mem_cons]
      exact ⟨hP.1, ht', hP.2.2⟩
    obtain ⟨hsuccess, hthreshold⟩ := htests t hget
    rcases (h.stages t hmem).step (Task.step_effect hrun) with
      hclear | ⟨hclosing, hpast⟩ | ⟨hopening, htest, hcount⟩
    · refine ⟨hall h.stages (.inl hclear), h.apart.imp (fun hnone => ?_) fun hnone => ?_⟩
      · exact hall hnone fun hclosing => hclosing.not_clear hclear
      · exact hall hnone fun hopening => hopening.not_clear hclear
    · refine ⟨hall h.stages (.inr (.inl hclosing)), .inr (hall ?_ hclosing.not_opening)⟩
      rcases hpast with hbefore | ⟨htest, hstate⟩
      · exact h.apart.resolve_left fun hnone => hnone t hmem hbefore
      · exact hsuccess htest hstate
    · refine ⟨hall h.stages (.inr (.inr hopening)), .inl (hall (hthreshold htest hcount) ?_)⟩
      exact fun hclosing => hclosing.not_opening hopening

/-- In every run in which no call passes one of the tests while another is past the other, no
calls wait for each other, at any time. -/
theorem breaker_deadlockFree (p : HttpProofProvider) (now : ℕ)
    (events : List (TaskEvent ProofCall)) (pool : Pool BreakerLock Breaker CallResult)
    (hr : Run (PoolStep (getProof p)) (Pool.empty (Breaker.new now)) events pool)
    (htests : Along (PoolStep (getProof p)) (TestsApart p) (Pool.empty (Breaker.new now)) events) :
    ¬pool.Deadlocked := by
  have hapart : Apart p pool := hr.invariant (fun _ _ _ h htests hstep => h.step htests hstep)
    htests ⟨by simp [Pool.empty], .inl (by simp [Pool.empty])⟩
  intro hdeadlock
  obtain ⟨t, ht, hcount, hstate⟩ := exists_awaits_count (sound_of_calls hr) hdeadlock
  obtain ⟨u, hu, hstate', hcount'⟩ := exists_awaits_state (sound_of_calls hr) hdeadlock
  rcases hapart.apart with hnone | hnone
  · exact hnone t ht ((hapart.stages t ht).closing hcount hstate)
  · exact hnone u hu ((hapart.stages u hu).opening hstate' hcount')

/-- Once calls wait for each other they do so for ever, and no call that has yet to check the
circuit goes on. -/
theorem breaker_stuck {now : ℕ} {events later : List (TaskEvent ProofCall)}
    (hr : Run (PoolStep (getProof p)) (Pool.empty (Breaker.new now)) events pool)
    (h : pool.Deadlocked) (hlater : Run (PoolStep (getProof p)) pool later pool') :
    pool'.Deadlocked ∧
      ∀ i, pool'.Waits i .circuitState →
        ∀ pool'', ¬PoolStep (getProof p) pool' (.advance i) pool'' := by
  have hstays := h.run (sound_of_calls hr) getProof_follows hlater
  have hsound := sound_of_calls (run_append_iff.mpr ⟨pool, hr, hlater⟩)
  obtain ⟨t, ht, -, hstate⟩ := exists_awaits_count hsound hstays
  exact ⟨hstays, fun i hi pool'' => hi.not_advance (hsound.mem_locked ht hstate)⟩

def stepCalls (p : HttpProofProvider) (pool : Pool BreakerLock Breaker CallResult)
    (event : TaskEvent ProofCall) : Option (Pool BreakerLock Breaker CallResult) :=
  pool.step (fun call => Task.start (getProof p call)) Task.step event

def threeCalls (first second third : Bool) : List (TaskEvent ProofCall) :=
  [.spawn (callAt 1 first), .spawn (callAt 2 second), .spawn (callAt 3 third)] ++
    List.replicate 3 (.advance 0) ++ List.replicate 3 (.advance 1) ++
    List.replicate 3 (.advance 2)

/-- No call holds a lock but the one that takes the step. -/
def LocksAlone (pool : Pool BreakerLock Breaker CallResult) : TaskEvent ProofCall → Prop
  | .spawn _ => True
  | .advance i => ∀ t ∈ pool.tasks.eraseIdx i, t.held = []

instance (pool : Pool BreakerLock Breaker CallResult) (event : TaskEvent ProofCall) :
    Decidable (LocksAlone pool event) :=
  match event with
  | .spawn _ => inferInstanceAs (Decidable True)
  | .advance i => inferInstanceAs (Decidable (∀ t ∈ pool.tasks.eraseIdx i, t.held = []))

theorem LocksAlone.testsApart (pool : Pool BreakerLock Breaker CallResult)
    (event : TaskEvent ProofCall) (h : LocksAlone pool event) : TestsApart p pool event := by
  cases event with
  | spawn call => trivial
  | advance i =>
    intro t ht
    have hself {u : BreakerTask} (hu : u ∈ pool.tasks) (hheld : u.held ≠ []) : u = t := by
      obtain ⟨j, hj⟩ := List.mem_iff_getElem?.mp hu
      by_cases hji : j = i
      · subst hji
        exact Option.some.inj (hj.symm.trans ht)
      · exact absurd (h u (List.mem_eraseIdx_iff_getElem?.mpr ⟨j, hji, hj⟩)) hheld
    constructor
    · intro htest _ u hu hopening
      obtain rfl := hself hu (by simp [hopening.1])
      cases htest.1.symm.trans hopening.1
    · intro htest _ u hu hclosing
      obtain rfl := hself hu (by simp [hclosing.held])
      cases htest.1.symm.trans hclosing.held

theorem breaker_deadlockFree_oneByOne :
    ∃ pool, Run (PoolStep (getProof ⟨1, false⟩)) (Pool.empty (Breaker.new 0))
        (threeCalls false true false ++ List.replicate 11 (.advance 0) ++
          List.replicate 7 (.advance 1) ++ List.replicate 11 (.advance 2)) pool ∧
      pool.shared.data.circuitState = .opened ∧ ¬pool.Deadlocked := by
  obtain ⟨pool, hr, hstate⟩ := exists_run_of_foldlM (stepCalls ⟨1, false⟩)
    (Pool.empty (Breaker.new 0))
    (threeCalls false true false ++ List.replicate 11 (.advance 0) ++
      List.replicate 7 (.advance 1) ++ List.replicate 11 (.advance 2))
    (fun pool => pool.shared.data.circuitState) (b := .opened) (by decide +kernel)
  refine ⟨pool, hr, hstate, breaker_deadlockFree _ _ _ pool hr ?_⟩
  refine Along.mono LocksAlone.testsApart (Along.of_check (f := stepCalls ⟨1, false⟩) ?_)
  decide +kernel

theorem exists_task_of_view {i : ℕ} {views : List (List BreakerLock × Option BreakerLock)}
    (hviews : pool.tasks.map (fun t => (t.held, t.awaits)) = views)
    {view : List BreakerLock × Option BreakerLock} (hi : views[i]? = some view) :
    ∃ t, pool.tasks[i]? = some t ∧ t.held = view.1 ∧ t.awaits = view.2 := by
  rw [← hviews, List.getElem?_map] at hi
  obtain ⟨t, ht, rfl⟩ := Option.map_eq_some_iff.mp hi
  exact ⟨t, ht, rfl, rfl⟩

def crossingCalls : List (TaskEvent ProofCall) :=
  threeCalls false true false ++ List.replicate 11 (.advance 0) ++
    List.replicate 3 (.advance 1) ++ List.replicate 7 (.advance 2)

theorem exists_run_crossingCalls :
    ∃ pool, Run (PoolStep (getProof ⟨1, false⟩)) (Pool.empty (Breaker.new 0)) crossingCalls
        pool ∧
      pool.tasks.map (fun t => (t.held, t.awaits)) =
        [([], none), ([.circuitState], some .failureCount),
          ([.failureCount], some .circuitState)] ∧
      pool.Deadlocked := by
  obtain ⟨pool, hr, hviews⟩ := exists_run_of_foldlM (stepCalls ⟨1, false⟩)
    (Pool.empty (Breaker.new 0)) crossingCalls
    (fun pool => pool.tasks.map fun t => (t.held, t.awaits))
    (b := [([], none), ([.circuitState], some .failureCount),
      ([.failureCount], some .circuitState)]) (by decide +kernel)
  obtain ⟨t, ht, hheld, hawaits⟩ := exists_task_of_view hviews (i := 1) rfl
  obtain ⟨u, hu, hheld', hawaits'⟩ := exists_task_of_view hviews (i := 2) rfl
  refine ⟨pool, hr, hviews, Pool.deadlocked_of_pair (i := 1) (j := 2) (by decide) ⟨t, ht, hawaits⟩
    ⟨u, hu, ?_⟩ ⟨u, hu, hawaits'⟩ ⟨t, ht, ?_⟩⟩
  · simp [hheld']
  · simp [hheld]

theorem breaker_deadlock :
    ∃ pool, Run (PoolStep (getProof ⟨1, false⟩)) (Pool.empty (Breaker.new 0))
        (threeCalls false true false ++ List.replicate 11 (.advance 0) ++
          List.replicate 3 (.advance 1) ++ List.replicate 7 (.advance 2)) pool ∧
      pool.tasks.map (fun t => (t.held, t.awaits)) =
        [([], none), ([.circuitState], some .failureCount),
          ([.failureCount], some .circuitState)] ∧
      pool.Deadlocked :=
  exists_run_crossingCalls

theorem breaker_stuck_fourthCall :
    ∃ pool pool', Run (PoolStep (getProof ⟨1, false⟩)) (Pool.empty (Breaker.new 0)) crossingCalls
        pool ∧
      pool.Deadlocked ∧ Run (PoolStep (getProof ⟨1, false⟩)) pool [.spawn (callAt 4 true)] pool' ∧
      pool'.Deadlocked ∧ pool'.Waits 3 .circuitState ∧
      ∀ pool'', ¬PoolStep (getProof ⟨1, false⟩) pool' (.advance 3) pool'' := by
  obtain ⟨pool, hr, hviews, hdeadlock⟩ := exists_run_crossingCalls
  have hlength : pool.tasks.length = 3 := by
    simpa using congrArg List.length hviews
  have hspawn : PoolStep (getProof ⟨1, false⟩) pool (.spawn (callAt 4 true))
      ⟨pool.shared, pool.tasks ++ [Task.start (getProof ⟨1, false⟩ (callAt 4 true))]⟩ := rfl
  have hlater := Run.cons hspawn (.nil _)
  obtain ⟨hstays, hnever⟩ := breaker_stuck hr hdeadlock hlater
  refine ⟨pool, _, hr, hdeadlock, hlater, hstays, ?_⟩
  have hwaits : Pool.Waits ⟨pool.shared, pool.tasks ++
      [Task.start (getProof ⟨1, false⟩ (callAt 4 true))]⟩ 3 .circuitState :=
    ⟨Task.start (getProof ⟨1, false⟩ (callAt 4 true)),
      hlength ▸ List.getElem?_concat_length, rfl⟩
  exact ⟨hwaits, hnever 3 hwaits⟩

end RollupX.Submitter
