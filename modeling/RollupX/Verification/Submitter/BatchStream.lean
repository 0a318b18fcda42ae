import RollupX.Model.Submitter.BatchSource
import RollupX.Verification.Executor.Jobs

/-! What a submitter that stays connected receives of the batches that the executor publishes. -/

namespace RollupX.Submitter

open Machine
open Executor (BatchPayload Service ServiceEnv ServiceStep utf8)

variable {S : Type*} {env : ServiceEnv S}

def HasRoots (payload : BatchPayload) : Prop :=
  payload.preStateRoot.length = 32 ∧ payload.postStateRoot.length = 32

theorem hasRoots_buildEnrichedPayload (input : BatchPayload) (trace : Executor.ExecutionTraceV1)
    (daCommitment proof : List UInt8) :
    HasRoots (Executor.buildEnrichedPayload input trace daCommitment proof) := by
  simp [HasRoots, Executor.buildEnrichedPayload]

theorem exists_ofPayload (toVec : List Executor.Transaction → List UInt8)
    {payload : BatchPayload} (h : HasRoots payload) :
    ∃ batch, FetchedBatch.ofPayload toVec payload = some batch := by
  simp [FetchedBatch.ofPayload, bytesToH256, h.1, h.2]

theorem exists_sent_of_step {σ σ' : Service S} {event : Executor.ServiceEvent}
    (hstep : ServiceStep env σ event σ') :
    ∃ later, σ'.stream = σ.stream ++ later ∧ ∀ p ∈ later, HasRoots p := by
  have hnone : σ'.stream = σ.stream →
      ∃ later, σ'.stream = σ.stream ++ later ∧ ∀ p ∈ later, HasRoots p :=
    fun h => ⟨[], by simp [h]⟩
  cases Executor.serviceStep_effect hstep with
  | sent hw => exact ⟨_, rfl, by simpa using hasRoots_buildEnrichedPayload _ _ _ _⟩
  | _ => exact hnone rfl

theorem map_some_filterMap {α β : Type*} {f : α → Option β} {xs : List α}
    (h : ∀ x ∈ xs, ∃ y, f x = some y) : (xs.filterMap f).map some = xs.map f := by
  induction xs with
  | nil => rfl
  | cons x xs ih =>
    obtain ⟨y, hy⟩ := h x List.mem_cons_self
    rw [List.filterMap_cons, hy, List.map_cons, List.map_cons, hy,
      ih fun z hz => h z (List.mem_cons_of_mem x hz)]

namespace GrpcBatchSource

variable {toVec : List Executor.Transaction → List UInt8} {capacity : ℕ}

/-- The batches returned so far are those published from `start` on, up to where the receiver
has come, in their order and without omission. -/
def GapFree (toVec : List Executor.Transaction → List UInt8) (start : ℕ)
    (g : GrpcBatchSource S) : Prop :=
  g.fetched.map some =
    ((g.service.stream.drop start).take (g.feed.next - start)).map
      (FetchedBatch.ofPayload toVec)

/-- At a read the receiver is at most as far behind as the buffer is long. -/
def KeepsUp (capacity : ℕ) (g : GrpcBatchSource S) (event : Event) : Prop :=
  event = .read → g.feed.KeepsUp capacity g.service.stream

instance (g : GrpcBatchSource S) (event : Event) : Decidable (g.KeepsUp capacity event) :=
  inferInstanceAs (Decidable (event = .read → g.feed.KeepsUp capacity g.service.stream))

def Event.isRead : Event → Bool
  | .executor _ => false
  | .read => true

theorem step_unique (g : GrpcBatchSource S) (event : Event) (t t' : GrpcBatchSource S)
    (h : Step toVec env capacity g event t) (h' : Step toVec env capacity g event t') :
    t = t' :=
  Option.some.inj (h.symm.trans h')

theorem reads (toVec : List Executor.Transaction → List UInt8) (env : ServiceEnv S)
    (capacity : ℕ) :
    Feed.Reads capacity (Step toVec env capacity) (fun g => g.service.stream)
      GrpcBatchSource.feed Event.isRead := by
  intro g event g' hstep
  unfold Step step at hstep
  cases event with
  | read =>
    cases hstep
    exact ⟨rfl, rfl⟩
  | executor event =>
    obtain ⟨σ, hσ, rfl⟩ := Option.map_eq_some_iff.mp hstep
    obtain ⟨later, hlater, -⟩ := exists_sent_of_step hσ
    exact ⟨rfl, later, hlater⟩

/-- What was returned is what was received, and it can all be read. -/
structure Faithful (toVec : List Executor.Transaction → List UInt8) (start : ℕ)
    (g : GrpcBatchSource S) : Prop where
  fetched : g.fetched = g.feed.received.filterMap (FetchedBatch.ofPayload toVec)
  hasRoots : ∀ p ∈ g.service.stream.drop start, HasRoots p
  start_le : start ≤ g.service.stream.length

theorem Step.faithful {g g' : GrpcBatchSource S} {event : Event} {start : ℕ}
    (hstep : Step toVec env capacity g event g') (h : g.Faithful toVec start) :
    g'.Faithful toVec start := by
  unfold Step step at hstep
  cases event with
  | read =>
    cases hstep
    refine ⟨?_, h.hasRoots, h.start_le⟩
    simp only [h.fetched]
    rw [← List.filterMap_append, Feed.received_append_drop]
  | executor event =>
    obtain ⟨σ, hσ, rfl⟩ := Option.map_eq_some_iff.mp hstep
    obtain ⟨later, hlater, hroots⟩ := exists_sent_of_step hσ
    refine ⟨h.fetched, ?_, ?_⟩
    · simp only [hlater, List.drop_append_of_le_length h.start_le, List.forall_mem_append]
      exact ⟨h.hasRoots, hroots⟩
    · simp only [hlater, List.length_append]
      exact Nat.le_add_right_of_le h.start_le

theorem faithful_subscribe (σ : Service S) :
    (subscribe σ).Faithful toVec σ.stream.length :=
  ⟨rfl, by simp [subscribe], Nat.le_refl _⟩

/-- Where nothing was passed over, the batches come without gaps, and otherwise they do
not. -/
theorem Faithful.gapFree_iff {g : GrpcBatchSource S} {start : ℕ} (h : g.Faithful toVec start)
    (hfeed : g.feed.Complete start g.service.stream ∨ g.feed.Gap start g.service.stream) :
    g.GapFree toVec start ↔ g.feed.Complete start g.service.stream := by
  have hlength : g.fetched.length ≤ g.feed.received.length := by
    rw [h.fetched]
    exact List.length_filterMap_le _ _
  rcases hfeed with hc | hgap
  · refine ⟨fun _ => hc, fun _ => ?_⟩
    have hnext : g.feed.next - start = g.feed.received.length := by
      rw [hc.next_eq]
      omega
    rw [GapFree, hnext, ← hc.received, h.fetched]
    refine map_some_filterMap fun p hp => exists_ofPayload toVec (h.hasRoots p ?_)
    rw [hc.received] at hp
    exact List.mem_of_mem_take hp
  · refine ⟨fun hfree => ?_, fun hc => absurd hc hgap.not_complete⟩
    have hle := congrArg List.length hfree
    simp only [List.length_map, List.length_take, List.length_drop] at hle
    have := hgap.lt_next
    have := hgap.next_le
    omega

/-- A submitter that stays connected gets the batches without gaps if and only if, at each
read, it is at most as far behind as the buffer of the channel is long. -/
theorem gapFree_iff_keepsUp (toVec : List Executor.Transaction → List UInt8)
    (env : ServiceEnv S) (capacity : ℕ) (σ : Service S) (events : List Event)
    (g : GrpcBatchSource S)
    (hr : Run (Step toVec env capacity) (subscribe σ) events g) :
    g.GapFree toVec σ.stream.length ↔
      Along (Step toVec env capacity) (KeepsUp capacity) (subscribe σ) events := by
  have hinit : (subscribe σ).feed.Complete σ.stream.length (subscribe σ).service.stream :=
    Feed.Complete.init σ.stream
  have hfaithful : g.Faithful toVec σ.stream.length :=
    hr.invariant_of_step (I := Faithful toVec σ.stream.length)
      (fun _ _ _ h hstep => hstep.faithful h) (faithful_subscribe σ)
  rw [hfaithful.gapFree_iff ((reads toVec env capacity).complete_or_gap hr hinit),
    (reads toVec env capacity).complete_iff step_unique hr hinit]
  have hevent : ∀ event : Event, event.isRead = true ↔ event = .read := by
    intro event
    cases event <;> simp [Event.isRead]
  simp only [hevent]
  rfl

def completes (batchId : String) : List Event :=
  (Executor.publishAndExecute (Executor.emptyBatch batchId) ++ Executor.finishBatch).map
    .executor

theorem gapFree_readEach :
    ∃ g, Run (Step (fun _ => utf8 "[]") Executor.emptyBatches 1)
        (subscribe (Service.start Executor.aliceStore))
        (completes "b1" ++ [.read] ++ completes "b2" ++ [.read]) g ∧
      g.fetched.map FetchedBatch.batchId = [['b', '1'], ['b', '2']] ∧
      g.GapFree (fun _ => utf8 "[]") 0 := by
  obtain ⟨g, hr, hids⟩ := exists_run_of_foldlM (step (fun _ => utf8 "[]") Executor.emptyBatches 1)
    (subscribe (Service.start Executor.aliceStore))
    (completes "b1" ++ [.read] ++ completes "b2" ++ [.read])
    (fun g => g.fetched.map FetchedBatch.batchId) (b := [['b', '1'], ['b', '2']])
    (by decide +kernel)
  refine ⟨g, hr, hids, (gapFree_iff_keepsUp (fun _ => utf8 "[]") Executor.emptyBatches 1
    (Service.start Executor.aliceStore) _ g hr).mpr ?_⟩
  exact Along.of_check (f := step (fun _ => utf8 "[]") Executor.emptyBatches 1)
    (by decide +kernel)

/-- A submitter that reads only after the second batch is never given the first. -/
theorem gap_readLate :
    ∃ g, Run (Step (fun _ => utf8 "[]") Executor.emptyBatches 1)
        (subscribe (Service.start Executor.aliceStore))
        (completes "b1" ++ completes "b2" ++ [.read, .read]) g ∧
      g.service.stream.map BatchPayload.batchId = ["b1", "b2"] ∧
      g.fetched.map FetchedBatch.batchId = [['b', '2']] ∧ g.feed.next = 2 ∧
      ¬g.GapFree (fun _ => utf8 "[]") 0 := by
  obtain ⟨g, hr, hview⟩ := exists_run_of_foldlM
    (step (fun _ => utf8 "[]") Executor.emptyBatches 1)
    (subscribe (Service.start Executor.aliceStore))
    (completes "b1" ++ completes "b2" ++ [.read, .read])
    (fun g => (g.service.stream.map BatchPayload.batchId,
      g.fetched.map FetchedBatch.batchId, g.feed.next))
    (b := (["b1", "b2"], [['b', '2']], 2)) (by decide +kernel)
  simp only [Prod.mk.injEq] at hview
  obtain ⟨hstream, hfetched, hnext⟩ := hview
  refine ⟨g, hr, hstream, hfetched, hnext, fun hfree => ?_⟩
  have hone : g.fetched.length = 1 := by simpa using congrArg List.length hfetched
  have htwo : g.service.stream.length = 2 := by simpa using congrArg List.length hstream
  have hlength := congrArg List.length hfree
  simp [hone, htwo, hnext] at hlength

end GrpcBatchSource

end RollupX.Submitter
