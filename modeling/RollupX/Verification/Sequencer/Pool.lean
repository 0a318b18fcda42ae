import Mathlib.Algebra.BigOperators.Group.List.Basic
import Mathlib.Data.List.Sort
import RollupX.Library.Selection
import RollupX.Verification.Sequencer.Steps

/-! What is taken from the pool for a batch. -/

namespace RollupX.Sequencer

def fitsBlob (maxCount maxBytes : ℕ) (selected : List (PooledTransaction × ℕ))
    (candidate : PooledTransaction × ℕ) : Bool :=
  selected.length < maxCount ∧
    (selected.map (·.1.estimatedEncodedBytes)).sum + candidate.1.estimatedEncodedBytes ≤ maxBytes

def blobCandidates (pool : List PooledTransaction) : List (PooledTransaction × ℕ) :=
  pool.zipIdx.mergeSort fun a b =>
    let sizeA := a.1.estimatedEncodedBytes
    let sizeB := b.1.estimatedEncodedBytes
    if sizeA ≠ sizeB then sizeB < sizeA
    else if a.1.tx.gasPrice ≠ b.1.tx.gasPrice then b.1.tx.gasPrice < a.1.tx.gasPrice
    else a.2 ≤ b.2

def byArrival (candidates : List (PooledTransaction × ℕ)) : List PooledTransaction :=
  (candidates.mergeSort fun a b => a.2 ≤ b.2).map Prod.fst

theorem foldl_pick (maxCount maxBytes : ℕ) (candidates : List (PooledTransaction × ℕ)) :
    candidates.foldl (fun (selected, remainder, used) (c : PooledTransaction × ℕ) =>
        let size := c.1.estimatedEncodedBytes
        if selected.length < maxCount ∧ used + size ≤ maxBytes then
          (selected ++ [c], remainder, used + size)
        else (selected, remainder ++ [c], used)) ([], [], 0) =
      ((Selection.select (fitsBlob maxCount maxBytes) candidates).1,
        (Selection.select (fitsBlob maxCount maxBytes) candidates).2,
        ((Selection.select (fitsBlob maxCount maxBytes) candidates).1.map
          (·.1.estimatedEncodedBytes)).sum) := by
  induction candidates using List.reverseRecOn with
  | nil => rfl
  | append_singleton candidates c ih =>
    rw [List.foldl_append, ih, Selection.select_append_singleton, Selection.step]
    simp only [List.foldl_cons, List.foldl_nil, fitsBlob, decide_eq_true_eq]
    split
    · simp
    · rfl

theorem takeBlobPacked_eq (maxCount maxBytes : ℕ) (pool : List PooledTransaction) :
    takeBlobPacked maxCount maxBytes pool =
      (byArrival (Selection.select (fitsBlob maxCount maxBytes) (blobCandidates pool)).1,
        byArrival (Selection.select (fitsBlob maxCount maxBytes) (blobCandidates pool)).2) := by
  have hfold := foldl_pick maxCount maxBytes (blobCandidates pool)
  simp only [takeBlobPacked, TransactionPool.takeBlobPacked]
  rw [show (pool.zipIdx.mergeSort _).foldl _ _ = _ from hfold]
  rfl

theorem pairwise_zipIdx (pool : List PooledTransaction) :
    pool.zipIdx.Pairwise fun a b => a.2 < b.2 := by
  rw [← List.pairwise_map (f := Prod.snd) (R := (· < ·)), List.zipIdx_map_snd]
  exact List.pairwise_lt_range'

theorem byArrival_perm (candidates : List (PooledTransaction × ℕ)) :
    (byArrival candidates).Perm (candidates.map Prod.fst) :=
  (List.mergeSort_perm _ _).map Prod.fst

theorem sum_byArrival (candidates : List (PooledTransaction × ℕ)) :
    ((byArrival candidates).map (·.estimatedEncodedBytes)).sum =
      (candidates.map (·.1.estimatedEncodedBytes)).sum := by
  rw [((byArrival_perm candidates).map _).sum_eq, List.map_map]
  rfl

/-- The function that returns the bytes too is the same otherwise, and the bytes are those of
what is taken. -/
theorem pool_takeBlobPacked_eq (maxCount maxBytes : ℕ) (pool : List PooledTransaction) :
    TransactionPool.takeBlobPacked maxCount maxBytes pool =
      (((takeBlobPacked maxCount maxBytes pool).1,
        ((takeBlobPacked maxCount maxBytes pool).1.map (·.estimatedEncodedBytes)).sum),
        (takeBlobPacked maxCount maxBytes pool).2) := by
  have hfold := foldl_pick maxCount maxBytes (blobCandidates pool)
  rw [takeBlobPacked_eq, sum_byArrival]
  simp only [TransactionPool.takeBlobPacked]
  rw [show (pool.zipIdx.mergeSort _).foldl _ _ = _ from hfold]
  rfl

theorem byArrival_sublist {candidates : List (PooledTransaction × ℕ)}
    {pool : List PooledTransaction} (h : candidates.Subperm pool.zipIdx) :
    (byArrival candidates).Sublist pool := by
  have hsorted : (candidates.mergeSort fun a b => a.2 ≤ b.2).Pairwise
      fun a b => decide (a.2 ≤ b.2) = true :=
    List.pairwise_mergeSort (by simp; omega) (by simp; omega) candidates
  have hperm := List.mergeSort_perm candidates fun a b => decide (a.2 ≤ b.2)
  have hdistinct : (candidates.mergeSort fun a b => a.2 ≤ b.2).Pairwise
      fun a b => a.2 ≠ b.2 := by
    obtain ⟨sub, hsub, hzip⟩ := hperm.subperm.trans h
    refine (hsub.pairwise_iff fun hne => hne.symm).mp ?_
    exact ((pairwise_zipIdx pool).sublist hzip).imp fun hlt => hlt.ne
  have hstrict : (candidates.mergeSort fun a b => a.2 ≤ b.2).Pairwise
      fun a b => a.2 < b.2 :=
    (hsorted.and hdistinct).imp fun h => lt_of_le_of_ne (of_decide_eq_true h.1) h.2
  have hsub := List.sublist_of_subperm_of_pairwise (r := fun a b => a.2 < b.2)
    (hperm.subperm.trans h) hstrict (pairwise_zipIdx pool)
  have hmap := hsub.map Prod.fst
  rwa [List.zipIdx_map_fst] at hmap

theorem select_blobCandidates_perm (p : List (PooledTransaction × ℕ) →
    PooledTransaction × ℕ → Bool) (pool : List PooledTransaction) :
    ((Selection.select p (blobCandidates pool)).1 ++
      (Selection.select p (blobCandidates pool)).2).Perm pool.zipIdx :=
  (Selection.select_perm p _).trans (List.mergeSort_perm _ _)

theorem takeBlobPacked_perm (maxCount maxBytes : ℕ) (pool : List PooledTransaction) :
    ((takeBlobPacked maxCount maxBytes pool).1 ++
      (takeBlobPacked maxCount maxBytes pool).2).Perm pool := by
  have hperm := (select_blobCandidates_perm (fitsBlob maxCount maxBytes) pool).map Prod.fst
  rw [List.zipIdx_map_fst, List.map_append] at hperm
  rw [takeBlobPacked_eq]
  exact ((byArrival_perm _).append (byArrival_perm _)).trans hperm

theorem takeBlobPacked_sublist (maxCount maxBytes : ℕ) (pool : List PooledTransaction) :
    (takeBlobPacked maxCount maxBytes pool).1.Sublist pool ∧
      (takeBlobPacked maxCount maxBytes pool).2.Sublist pool := by
  have hperm := select_blobCandidates_perm (fitsBlob maxCount maxBytes) pool
  rw [takeBlobPacked_eq]
  exact ⟨byArrival_sublist ((List.sublist_append_left _ _).subperm.trans hperm.subperm),
    byArrival_sublist ((List.sublist_append_right _ _).subperm.trans hperm.subperm)⟩

theorem select_fitsBlob_le (maxCount maxBytes : ℕ) (candidates : List (PooledTransaction × ℕ)) :
    (Selection.select (fitsBlob maxCount maxBytes) candidates).1.length ≤ maxCount ∧
      ((Selection.select (fitsBlob maxCount maxBytes) candidates).1.map
        (·.1.estimatedEncodedBytes)).sum ≤ maxBytes := by
  refine Selection.foldl_step_invariant (I := fun _ s => s.1.length ≤ maxCount ∧
    (s.1.map (·.1.estimatedEncodedBytes)).sum ≤ maxBytes) ?_ ?_ (by simp) candidates
  · intro seen selected remainder c _ hc
    rw [fitsBlob, decide_eq_true_eq] at hc
    simp only [List.length_append, List.length_singleton, List.map_append, List.map_singleton,
      List.sum_append, List.sum_singleton]
    exact ⟨hc.1, hc.2⟩
  · intro seen selected remainder c h _
    exact h

theorem not_fits_of_left {maxCount maxBytes : ℕ} {candidates : List (PooledTransaction × ℕ)}
    (hroom : (Selection.select (fitsBlob maxCount maxBytes) candidates).1.length < maxCount)
    {c : PooledTransaction × ℕ}
    (hc : c ∈ (Selection.select (fitsBlob maxCount maxBytes) candidates).2) :
    maxBytes < ((Selection.select (fitsBlob maxCount maxBytes) candidates).1.map
      (·.1.estimatedEncodedBytes)).sum + c.1.estimatedEncodedBytes := by
  obtain ⟨before, after, rfl, htest⟩ := (Selection.exists_tested _ candidates).2 c hc
  obtain ⟨more, hmore⟩ := Selection.accepted_isPrefix (fitsBlob maxCount maxBytes) before
    (c :: after)
  rw [← hmore] at hroom ⊢
  rw [fitsBlob, decide_eq_false_iff_not, not_and_or] at htest
  simp only [List.length_append, List.map_append, List.sum_append] at hroom ⊢
  omega

/-- The packing splits the pool, both parts in the order of arrival. What is taken keeps to the
limits, and nothing that stays would have fitted, unless the count is reached. -/
theorem takeBlobPacked_spec (maxCount maxBytes : ℕ) (pool : List PooledTransaction) :
    ∃ selected used remainder,
      TransactionPool.takeBlobPacked maxCount maxBytes pool = ((selected, used), remainder) ∧
      (selected ++ remainder).Perm pool ∧ selected.Sublist pool ∧ remainder.Sublist pool ∧
      used = (selected.map (·.estimatedEncodedBytes)).sum ∧ used ≤ maxBytes ∧
      selected.length ≤ maxCount ∧
      (selected.length < maxCount →
        ∀ p ∈ remainder, maxBytes < used + p.estimatedEncodedBytes) := by
  obtain ⟨hcount, hbytes⟩ := select_fitsBlob_le maxCount maxBytes (blobCandidates pool)
  have hlength := (byArrival_perm
    (Selection.select (fitsBlob maxCount maxBytes) (blobCandidates pool)).1).length_eq
  rw [List.length_map] at hlength
  refine ⟨_, _, _, pool_takeBlobPacked_eq maxCount maxBytes pool, takeBlobPacked_perm ..,
    (takeBlobPacked_sublist ..).1, (takeBlobPacked_sublist ..).2, rfl, ?_, ?_, ?_⟩
  · rw [takeBlobPacked_eq, sum_byArrival]
    exact hbytes
  · rw [takeBlobPacked_eq, hlength]
    exact hcount
  · rw [takeBlobPacked_eq, hlength, sum_byArrival]
    intro hroom p hp
    rw [(byArrival_perm _).mem_iff, List.mem_map] at hp
    obtain ⟨c, hc, rfl⟩ := hp
    exact not_fits_of_left hroom hc

theorem takeBlobPacked_all {maxCount maxBytes : ℕ} {pool : List PooledTransaction}
    (hcount : pool.length ≤ maxCount)
    (hbytes : (pool.map (·.estimatedEncodedBytes)).sum ≤ maxBytes) :
    takeBlobPacked maxCount maxBytes pool = (pool, []) := by
  have hperm : (blobCandidates pool).Perm pool.zipIdx := List.mergeSort_perm _ _
  have hall : Selection.select (fitsBlob maxCount maxBytes) (blobCandidates pool) =
      (blobCandidates pool, []) := by
    refine Selection.select_eq_all fun before c after hsplit => ?_
    have hlength := hperm.length_eq
    have hsum := ((hperm.map Prod.fst).map (·.estimatedEncodedBytes)).sum_eq
    rw [List.zipIdx_map_fst] at hsum
    rw [hsplit] at hlength hsum
    simp only [List.map_append, List.map_cons, List.sum_append, List.sum_cons, List.map_map,
      Function.comp_def] at hsum
    simp only [List.length_append, List.length_cons, List.length_zipIdx] at hlength
    rw [fitsBlob, decide_eq_true_eq]
    omega
  rw [takeBlobPacked_eq, hall]
  have hlength : (byArrival (blobCandidates pool)).length = pool.length := by
    rw [(byArrival_perm _).length_eq, List.length_map, hperm.length_eq, List.length_zipIdx]
  rw [(byArrival_sublist hperm.subperm).eq_of_length hlength]
  simp [byArrival]

variable {env : OrchestratorEnv}

theorem takePooled_perm (env : OrchestratorEnv) (accepted : List ForcedTransaction) (depth : ℕ)
    (pool : List PooledTransaction) :
    ((takePooled env accepted depth pool).1 ++ (takePooled env accepted depth pool).2).Perm
      pool := by
  simp only [takePooled]
  split_ifs
  · exact takeBlobPacked_perm ..
  · rw [List.take_append_drop]

theorem takePooled_sublist (env : OrchestratorEnv) (accepted : List ForcedTransaction)
    (depth : ℕ) (pool : List PooledTransaction) :
    (takePooled env accepted depth pool).1.Sublist pool ∧
      (takePooled env accepted depth pool).2.Sublist pool := by
  simp only [takePooled]
  split_ifs
  · exact takeBlobPacked_sublist ..
  · exact ⟨List.take_sublist .., List.drop_sublist ..⟩

theorem selectNormal_eq (c : BatchConfig) (forced : List ForcedTransaction)
    (txs : List PooledTransaction) :
    selectNormal c forced txs = Selection.select (fun accepted tx =>
      canAddTransaction c (forced.map .forced ++ accepted.map .normal) (.normal tx)) txs :=
  rfl

theorem selectNormal_sublist (c : BatchConfig) (forced : List ForcedTransaction)
    (txs : List PooledTransaction) :
    (selectNormal c forced txs).1.Sublist txs ∧ (selectNormal c forced txs).2.Sublist txs := by
  rw [selectNormal_eq]
  exact Selection.select_sublist ..

theorem taken_perm (env : OrchestratorEnv) (accepted : List ForcedTransaction) (depth : ℕ)
    (pool : List PooledTransaction) :
    ((selectNormal env.config accepted (takePooled env accepted depth pool).1).1 ++
      ((selectNormal env.config accepted (takePooled env accepted depth pool).1).2 ++
        (takePooled env accepted depth pool).2)).Perm pool := by
  rw [selectNormal_eq, ← List.append_assoc]
  exact ((Selection.select_perm _ _).append_right _).trans (takePooled_perm ..)

theorem normal_schedule (batchId : UInt64) (accepted : List ForcedTransaction)
    (ordered : List PooledTransaction) (root : Executor.Hash) (timestamp : UInt64) :
    (Batch.mk batchId (schedule accepted ordered) root timestamp).normal = ordered := by
  have hforced : (accepted.map Transaction.forced).filterMap Transaction.asNormal = [] := by
    simp [Transaction.asNormal]
  have hnormal : (ordered.map Transaction.normal).filterMap Transaction.asNormal =
      ordered := by
    simp [Transaction.asNormal, List.filterMap_map, Function.comp_def]
  rw [Batch.normal, schedule, List.filterMap_append, hforced, hnormal, List.nil_append]

def OrchestratorPhase.normal : OrchestratorPhase → List PooledTransaction
  | .requeueNormal _ normal _ => normal
  | .sealing _ normal => normal
  | _ => []

def OrchestratorPhase.refused : OrchestratorPhase → List PooledTransaction
  | .requeueNormal _ _ deferred => deferred
  | _ => []

def Orchestrator.sealedNormal (o : Orchestrator) : List PooledTransaction :=
  o.sealed.flatMap Batch.normal

def pooledAdded (events : List OrchestratorEvent) : List PooledTransaction :=
  events.filterMap fun event =>
    match event with
    | .addPooled tx => some tx
    | _ => none

theorem pooledAdded_cons (event : OrchestratorEvent) (events : List OrchestratorEvent) :
    pooledAdded (event :: events) = pooledAdded [event] ++ pooledAdded events := by
  rw [pooledAdded, ← List.singleton_append, List.filterMap_append]
  rfl

theorem OrchestratorPhase.normal_of_watching {phase : OrchestratorPhase}
    (h : phase.watching = true) : phase.normal = [] ∧ phase.refused = [] := by
  cases phase <;> first | exact ⟨rfl, rfl⟩ | cases h

end RollupX.Sequencer
