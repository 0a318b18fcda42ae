import RollupX.Verification.Sequencer.Publication

/-! The ids of published batches. A process takes its first id from the registry, and counts up from
there. -/

namespace RollupX.Sequencer

open Machine

theorem asI64_of_lt {x : UInt64} (h : x.toNat < 2 ^ 63) : asI64 x = x.toNat := by
  rw [asI64, BitVec.toInt_eq_toNat_of_lt (by simpa using by omega)]
  rfl

theorem toNat_asU64 {x : ℤ} (hnonneg : 0 ≤ x) (hlt : x < 2 ^ 63) :
    (asU64 x).toNat = x.toNat := by
  rw [asU64, UInt64.toNat_ofBitVec, BitVec.toNat_ofInt, Int.emod_eq_of_lt hnonneg (by omega)]

/-- The stored ids are below `2 ^ 63`, where the casts do not change them. -/
def Registry.Small (registry : Registry) : Prop :=
  ∀ v ∈ registry, 0 ≤ v ∧ v < 2 ^ 63

theorem Registry.Small.store {registry : Registry} (h : registry.Small) {batchId : UInt64}
    (hid : batchId.toNat < 2 ^ 63) : (registry.store batchId).Small := by
  unfold Registry.store
  split
  · exact h
  · intro v hv
    rcases List.mem_append.mp hv with hv | hv
    · exact h v hv
    · rw [List.mem_singleton.mp hv, asI64_of_lt hid]
      omega

theorem Registry.Small.lt_getNextBatchId {registry : Registry} (h : registry.Small) {v : ℤ}
    (hv : v ∈ registry) : v < registry.getNextBatchId.toNat := by
  unfold Registry.getNextBatchId
  cases hmax : registry.max? with
  | none =>
    rw [List.max?_eq_none_iff.mp hmax] at hv
    cases hv
  | some maximum =>
    obtain ⟨hmem, hle⟩ := List.max?_eq_some_iff.mp hmax
    obtain ⟨hnonneg, hlt⟩ := h maximum hmem
    have hv' := hle v hv
    simp only
    rw [UInt64.toNat_add, toNat_asU64 hnonneg hlt, UInt64.toNat_one,
      Nat.mod_eq_of_lt (by omega)]
    omega

def OrchestratorPhase.isSealing : OrchestratorPhase → Bool
  | .sealing _ _ => true
  | _ => false

/-- A process starts above the ids published before: there are none, or the registry is read
and has stored one that is as high. No process is about to seal with an id of `2 ^ 63` or
more. -/
def ResumesAbove (n : Node) : NodeEvent → Prop
  | .start registryRead =>
    n.published = [] ∨
      registryRead = true ∧ ∀ batch ∈ n.published, ∃ v ∈ n.registry, asI64 batch.batchId ≤ v
  | .orchestrator _ =>
    ∀ p ∈ n.process, p.orchestrator.phase.isSealing = true →
      p.orchestrator.nextBatchId.toNat < 2 ^ 63
  | _ => True

structure Process.AboveIds (published : List Batch) (p : Process) : Prop where
  below : ∀ batch ∈ published, batch.batchId < p.orchestrator.nextBatchId
  pending : ∀ batch ∈ p.pending, batch.batchId.toNat < 2 ^ 63 ∧
    batch.batchId < p.orchestrator.nextBatchId ∧
    (p.sent = false → ∀ other ∈ published, other.batchId < batch.batchId)
  unsent : p.pending = [] → p.sent = false

/-- The ids were published in increasing order, and a running process is above them. -/
structure Node.IncreasingIds (n : Node) : Prop where
  increasing : n.published.Pairwise fun a b => a.batchId < b.batchId
  small : n.registry.Small ∧ ∀ batch ∈ n.published, batch.batchId.toNat < 2 ^ 63
  process : ∀ p ∈ n.process, p.AboveIds n.published

theorem lt_start {nextBatchId batchId : UInt64} (h : batchId < nextBatchId) :
    batchId < (Orchestrator.start nextBatchId).nextBatchId := by
  have hmax : (Orchestrator.start nextBatchId).nextBatchId =
      if nextBatchId ≤ 1 then 1 else nextBatchId := rfl
  rw [hmax]
  split
  · rename_i hle
    exact UInt64.lt_of_lt_of_le h hle
  · exact h

theorem Node.IncreasingIds.starts {n : Node} (h : n.IncreasingIds) {registryRead : Bool}
    (hok : ResumesAbove n (.start registryRead)) :
    (Process.start (if registryRead then n.registry.getNextBatchId else 1)).AboveIds
      n.published := by
  refine ⟨fun batch hbatch => lt_start ?_, nofun, fun _ => rfl⟩
  rcases hok with hnone | ⟨rfl, hstored⟩
  · rw [hnone] at hbatch
    cases hbatch
  · obtain ⟨v, hv, hle⟩ := hstored batch hbatch
    have hnext := h.small.1.lt_getNextBatchId hv
    rw [asI64_of_lt (h.small.2 batch hbatch)] at hle
    rw [if_pos rfl, UInt64.lt_iff_toNat_lt]
    omega

theorem Process.AboveIds.moves {env : OrchestratorEnv} {published : List Batch} {p : Process}
    {event : OrchestratorEvent} {o : Orchestrator} (h : p.AboveIds published)
    (hpermits : p.permits event = true)
    (hstep : OrchestratorStep env p.orchestrator event o)
    (hsmall : p.orchestrator.phase.isSealing = true →
      p.orchestrator.nextBatchId.toNat < 2 ^ 63) :
    ({ p with orchestrator := o } : Process).AboveIds published := by
  cases hstep.sealEffect hpermits with
  | @seals batch hphase hnone hid hnext hsealed hpending =>
    obtain ⟨accepted, normal, hphase⟩ := hphase
    have hlt := hsmall (by rw [hphase]; rfl)
    have hup : p.orchestrator.nextBatchId < o.nextBatchId := by
      rw [hnext, UInt64.lt_iff_toNat_lt, UInt64.toNat_add, UInt64.toNat_one,
        Nat.mod_eq_of_lt (by omega)]
      omega
    refine ⟨fun other hother => UInt64.lt_trans (h.below other hother) hup, ?_, ?_⟩
    · rw [hpending]
      intro sealed hmem
      obtain rfl := List.mem_singleton.mp hmem
      rw [hid]
      exact ⟨hlt, hup, fun _ => h.below⟩
    · rw [hpending]
      exact nofun
  | keeps hid hsealed hpending =>
    refine ⟨?_, ?_, ?_⟩
    · rw [hid]
      exact h.below
    · rw [hpending, hid]
      exact h.pending
    · rw [hpending]
      exact h.unsent

/-- The first attempt that reaches the executor adds the pending batch. -/
theorem Process.AboveIds.publishes {env : NodeEnv} {published : List Batch} {p : Process}
    {batch : Batch} {outcome : PublishOutcome} (h : p.AboveIds published)
    (hpending : p.pending = [batch]) :
    (p.publish env outcome).AboveIds
      (if outcome.delivered && !p.sent then published ++ [batch] else published) := by
  obtain ⟨hsmall, hlt, hbelow⟩ := h.pending batch (by simp [hpending])
  have hall : ∀ other ∈ (if outcome.delivered && !p.sent then published ++ [batch]
      else published), other.batchId < p.orchestrator.nextBatchId := by
    intro other hother
    split at hother
    · rcases List.mem_append.mp hother with hother | hother
      · exact h.below other hother
      · rw [List.mem_singleton.mp hother]
        exact hlt
    · exact h.below other hother
  by_cases hover : p.publicationOver env outcome = true
  · rw [Process.publish, if_pos hover]
    exact ⟨hall, fun _ hother => absurd hother List.not_mem_nil, fun _ => rfl⟩
  · rw [Process.publish, if_neg hover]
    refine ⟨hall, ?_, ?_⟩
    · show ∀ other ∈ p.pending, _
      rw [hpending]
      intro other hother
      obtain rfl := List.mem_singleton.mp hother
      refine ⟨hsmall, hlt, fun hunsent => ?_⟩
      simp only [Bool.or_eq_false_iff] at hunsent
      rw [hunsent.1, hunsent.2]
      exact hbelow hunsent.1
    · intro hnil
      exact absurd (hpending.symm.trans hnil) (List.cons_ne_nil _ _)

theorem NodeStep.increasingIds {env : NodeEnv} {n n' : Node} {event : NodeEvent}
    (hstep : NodeStep env n event n') (hok : ResumesAbove n event) (h : n.IncreasingIds) :
    n'.IncreasingIds := by
  cases hstep.effect with
  | starts hprocess =>
    refine ⟨h.increasing, h.small, fun p hp => ?_⟩
    rw [← Option.some.inj hp]
    exact h.starts hok
  | stops hprocess => exact ⟨h.increasing, h.small, nofun⟩
  | @moves p event o hprocess hpermits hmove =>
    refine ⟨h.increasing, h.small, fun p' hp' => ?_⟩
    rw [← Option.some.inj hp']
    exact (h.process p hprocess).moves hpermits hmove (hok p hprocess)
  | @stores p batch succeeds hprocess hphase hbatch =>
    have habove := h.process p hprocess
    have hpending : p.pending = [batch] := by simp [Process.pending, hphase, hbatch]
    refine ⟨h.increasing, ⟨?_, h.small.2⟩, fun p' hp' => ?_⟩
    · simp only
      split
      · exact h.small.1.store (habove.pending batch (by simp [hpending])).1
      · exact h.small.1
    · rw [← Option.some.inj hp']
      exact ⟨habove.below, habove.pending, habove.unsent⟩
  | @publishes p batch outcome hprocess hphase hbatch =>
    have habove := h.process p hprocess
    have hpending : p.pending = [batch] := by simp [Process.pending, hphase, hbatch]
    obtain ⟨hsmall, -, hbelow⟩ := habove.pending batch (by simp [hpending])
    refine ⟨?_, ⟨h.small.1, ?_⟩, fun p' hp' => ?_⟩
    · simp only
      split
      · rename_i hfirst
        simp only [Bool.and_eq_true, Bool.not_eq_true'] at hfirst
        rw [List.pairwise_append]
        refine ⟨h.increasing, List.pairwise_singleton _ _, fun other hother last hlast => ?_⟩
        rw [List.mem_singleton.mp hlast]
        exact hbelow hfirst.2 other hother
      · exact h.increasing
    · simp only
      split
      · rw [List.forall_mem_append]
        exact ⟨h.small.2, by simpa using hsmall⟩
      · exact h.small.2
    · rw [← Option.some.inj hp']
      exact habove.publishes hpending

instance (n : Node) (event : NodeEvent) : Decidable (ResumesAbove n event) :=
  match event with
  | .start _ => inferInstanceAs (Decidable (_ ∨ _))
  | .orchestrator _ => inferInstanceAs (Decidable (∀ p ∈ n.process, _))
  | .stop | .store _ | .publish _ => isTrue trivial

/-- In every run, with any number of restarts and any failures of the registry, in which each
process starts above the ids published before it, no two published batches have the same
id. -/
theorem published_nodup_of_resumesAbove (env : NodeEnv) (events : List NodeEvent) (n : Node)
    (hr : Run (NodeStep env) Node.init events n)
    (hok : Along (NodeStep env) ResumesAbove Node.init events) :
    (n.published.map Batch.batchId).Nodup := by
  have hinit : Node.init.IncreasingIds := ⟨.nil, ⟨nofun, nofun⟩, nofun⟩
  have hend := hr.invariant (I := Node.IncreasingIds)
    (fun n event n' h hok hstep => hstep.increasingIds hok h) hok hinit
  rw [List.Nodup, List.pairwise_map]
  exact hend.increasing.imp fun hlt => UInt64.ne_of_lt hlt

def restarted (stored registryRead : Bool) : List NodeEvent :=
  [.start true] ++ (timedOut [payment 1 0 30 1] 9).map .orchestrator ++
    [.store stored, .orchestrator (.tick ⟨0, 0⟩), .publish (.response true), .stop,
      .start registryRead] ++
    (timedOut [payment 1 1 30 1] 9).map .orchestrator ++
    [.store true, .orchestrator (.tick ⟨0, 0⟩), .publish (.response true)]

theorem published_nodup_restarted :
    ∃ n, Run (NodeStep fcfsNode) Node.init (restarted true true) n ∧
      n.published.map Batch.batchId = [1, 2] ∧ (n.published.map Batch.batchId).Nodup := by
  obtain ⟨n, hr, hids⟩ := exists_run_of_foldlM (Node.step fcfsNode) Node.init
    (restarted true true) (fun n => n.published.map Batch.batchId) (b := [1, 2])
    (by decide +kernel)
  have hok : Along (NodeStep fcfsNode) ResumesAbove Node.init (restarted true true) :=
    Along.of_check (f := Node.step fcfsNode) (by decide +kernel)
  exact ⟨n, hr, hids, published_nodup_of_resumesAbove fcfsNode _ n hr hok⟩

/-- The second process cannot read the registry and starts again at 1. The same happens when
the first batch was not stored. -/
theorem published_twice_restarted :
    ∃ n n', Run (NodeStep fcfsNode) Node.init (restarted true false) n ∧
      n.published.map Batch.batchId = [1, 1] ∧ n.accepted = n.published ∧
      ¬(n.published.map Batch.batchId).Nodup ∧
      Run (NodeStep fcfsNode) Node.init (restarted false true) n' ∧
      n'.published.map Batch.batchId = [1, 1] := by
  obtain ⟨n, hr, hn⟩ := exists_run_of_foldlM (Node.step fcfsNode) Node.init
    (restarted true false)
    (fun n => (n.published.map Batch.batchId, decide (n.accepted = n.published)))
    (b := ([1, 1], true)) (by decide +kernel)
  obtain ⟨hids, haccepted⟩ := Prod.mk.inj hn
  obtain ⟨n', hr', hids'⟩ := exists_run_of_foldlM (Node.step fcfsNode) Node.init
    (restarted false true) (fun n => n.published.map Batch.batchId) (b := [1, 1])
    (by decide +kernel)
  refine ⟨n, n', hr, hids, of_decide_eq_true haccepted, ?_, hr', hids'⟩
  rw [hids]
  decide

end RollupX.Sequencer
