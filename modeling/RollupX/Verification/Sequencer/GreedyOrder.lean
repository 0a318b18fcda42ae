import Mathlib.Data.Prod.Lex
import RollupX.Verification.Sequencer.Policies

/-! The order that the greedy policies give. Each of them compares two heads by a rank, so the
loop is a greedy merge of the senders' queues, in whatever order the map is iterated. -/

namespace RollupX.Sequencer

open Executor (Address)
open Merge
open OrderDual (toDual)

/-- The window first, then the weight, the gas price and the time. Larger weights and prices
come first. -/
abbrev Rank := ℕ ×ₗ ℕᵒᵈ ×ₗ ℕᵒᵈ ×ₗ ℕ

def PooledTransaction.rank (window weight : ℕ) (p : PooledTransaction) : Rank :=
  toLex (window, toLex (toDual weight, toLex (toDual p.tx.gasPrice.toNat, p.tx.timestamp.toNat)))

def TimeBoostPolicy.window (timeWindowMs : UInt64) (p : PooledTransaction) : ℕ :=
  (p.tx.timestamp / timeWindowMs).toNat

def TimeBoostPolicy.boost (p : PooledTransaction) : ℕ :=
  (p.tx.boostBid.getD 0).toNat

/-- The comparison of heads, for the policies that have one. A window of zero panics. -/
def SchedulingPolicyType.comparison : SchedulingPolicyType → Option Better
  | .feePriority => some FeePriorityPolicy.better
  | .timeBoost timeWindowMs =>
    if timeWindowMs = 0 then none else some (TimeBoostPolicy.better timeWindowMs)
  | .blobPacking => some BlobPackingPolicy.better
  | .fcfs => none
  | .fairBft => none

def SchedulingPolicyType.rank (policy : SchedulingPolicyType) (p : PooledTransaction) : Rank :=
  match policy with
  | .timeBoost timeWindowMs =>
    p.rank (TimeBoostPolicy.window timeWindowMs p) (TimeBoostPolicy.boost p)
  | .blobPacking => p.rank 0 p.estimatedEncodedBytes
  | _ => p.rank 0 0

theorem rank_lt_rank {w w' b b' : ℕ} {p p' : PooledTransaction} :
    p.rank w b < p'.rank w' b' ↔ w < w' ∨ w = w' ∧ (b' < b ∨ b = b' ∧
      (p'.tx.gasPrice.toNat < p.tx.gasPrice.toNat ∨
        p.tx.gasPrice.toNat = p'.tx.gasPrice.toNat ∧ p.tx.timestamp < p'.tx.timestamp)) := by
  simp [PooledTransaction.rank, Prod.Lex.toLex_lt_toLex, UInt64.lt_iff_toNat_lt]

theorem feePriority_better (a b : PooledTransaction) (window weight : ℕ) :
    FeePriorityPolicy.better a b =
      some (decide (a.rank window weight < b.rank window weight)) := by
  unfold FeePriorityPolicy.better
  simp only [rank_lt_rank, Nat.lt_irrefl, true_and, false_or]
  rcases Nat.lt_trichotomy a.tx.gasPrice.toNat b.tx.gasPrice.toNat with h | h | h
  · rw [Nat.compare_eq_lt.mpr h]
    simp [h.ne, Nat.le_of_lt h]
  · rw [Nat.compare_eq_eq.mpr h]
    simp [h]
  · rw [Nat.compare_eq_gt.mpr h]
    simp [h]

theorem blobPacking_better (a b : PooledTransaction) :
    BlobPackingPolicy.better a b = some (decide
      (a.rank 0 a.estimatedEncodedBytes < b.rank 0 b.estimatedEncodedBytes)) := by
  unfold BlobPackingPolicy.better
  rcases Nat.lt_trichotomy a.estimatedEncodedBytes b.estimatedEncodedBytes with h | h | h
  · rw [Nat.compare_eq_lt.mpr h]
    simp [rank_lt_rank, h.ne, Nat.le_of_lt h]
  · rw [Nat.compare_eq_eq.mpr h, ← h]
    exact feePriority_better a b 0 _
  · rw [Nat.compare_eq_gt.mpr h]
    simp [rank_lt_rank, h]

theorem timeBoost_better {timeWindowMs : UInt64} (hwindow : timeWindowMs ≠ 0)
    (a b : PooledTransaction) :
    TimeBoostPolicy.better timeWindowMs a b = some (decide
      (a.rank (TimeBoostPolicy.window timeWindowMs a) (TimeBoostPolicy.boost a) <
        b.rank (TimeBoostPolicy.window timeWindowMs b) (TimeBoostPolicy.boost b))) := by
  simp only [TimeBoostPolicy.better, hwindow, if_false, UInt64.compare_eq_toNat_compare_toNat]
  rw [show (a.tx.timestamp / timeWindowMs).toNat = TimeBoostPolicy.window timeWindowMs a from rfl,
    show (b.tx.timestamp / timeWindowMs).toNat = TimeBoostPolicy.window timeWindowMs b from rfl,
    show (a.tx.boostBid.getD 0).toNat = TimeBoostPolicy.boost a from rfl,
    show (b.tx.boostBid.getD 0).toNat = TimeBoostPolicy.boost b from rfl]
  rcases Nat.lt_trichotomy (TimeBoostPolicy.window timeWindowMs a)
      (TimeBoostPolicy.window timeWindowMs b) with h | h | h
  · rw [Nat.compare_eq_lt.mpr h]
    simp [rank_lt_rank, h]
  · rw [Nat.compare_eq_eq.mpr h, ← h]
    rcases Nat.lt_trichotomy (TimeBoostPolicy.boost a) (TimeBoostPolicy.boost b) with
      h | h | h
    · simp only [Nat.compare_eq_lt.mpr h]
      simp [rank_lt_rank, h.ne, Nat.le_of_lt h]
    · simp only [Nat.compare_eq_eq.mpr h]
      rw [← h]
      exact feePriority_better a b _ _
    · simp only [Nat.compare_eq_gt.mpr h]
      simp [rank_lt_rank, h]
  · rw [Nat.compare_eq_gt.mpr h]
    simp [rank_lt_rank, h.ne', Nat.le_of_lt h]

theorem comparison_eq {policy : SchedulingPolicyType} {better : Better}
    (h : policy.comparison = some better) (a b : PooledTransaction) :
    better a b = some (decide (policy.rank a < policy.rank b)) := by
  cases policy with
  | fcfs => cases h
  | feePriority =>
    cases h
    exact feePriority_better a b 0 0
  | timeBoost timeWindowMs =>
    simp only [SchedulingPolicyType.comparison, Option.ite_none_left_eq_some] at h
    rw [← Option.some.inj h.2]
    exact timeBoost_better h.1 a b
  | fairBft => cases h
  | blobPacking =>
    cases h
    exact blobPacking_better a b

/-- The choice of a round: the first of the best heads. -/
inductive FirstBest {β : Type*} [LinearOrder β] (rank : PooledTransaction → β)
    (grouped : Grouped) : Option (Address × PooledTransaction) → Prop where
  | empty : (∀ entry ∈ grouped, entry.2 = []) → FirstBest rank grouped none
  | found {before after : Grouped} {sender : Address} {tx : PooledTransaction}
      {rest : List PooledTransaction} :
      grouped = before ++ (sender, tx :: rest) :: after →
      (∀ s y ys, (s, y :: ys) ∈ before → rank tx < rank y) →
      (∀ s y ys, (s, y :: ys) ∈ after → rank tx ≤ rank y) →
      FirstBest rank grouped (some (sender, tx))

variable {better : Better} {β : Type*} [LinearOrder β] {rank : PooledTransaction → β}

theorem FirstBest.exists_mem {grouped : Grouped} {sender : Address} {tx : PooledTransaction}
    (h : FirstBest rank grouped (some (sender, tx))) :
    (∃ rest, (sender, tx :: rest) ∈ grouped) ∧
      ∀ s y ys, (s, y :: ys) ∈ grouped → rank tx ≤ rank y := by
  cases h with
  | @found before after _ _ rest hsplit hbefore hafter =>
    rw [hsplit]
    refine ⟨⟨rest, by simp⟩, fun s y ys hmem => ?_⟩
    rcases List.mem_append.mp hmem with hmem | hmem
    · exact (hbefore s y ys hmem).le
    · rcases List.mem_cons.mp hmem with heq | hmem
      · cases heq
        exact le_rfl
      · exact hafter s y ys hmem

theorem FirstBest.concat {grouped : Grouped} {sender s : Address} {tx : PooledTransaction}
    {queue : List PooledTransaction} (h : FirstBest rank grouped (some (sender, tx)))
    (hqueue : ∀ y ys, queue = y :: ys → rank tx ≤ rank y) :
    FirstBest rank (grouped ++ [(s, queue)]) (some (sender, tx)) := by
  cases h with
  | found hsplit hbefore hafter =>
    refine .found (by rw [hsplit, List.append_assoc]; rfl) hbefore ?_
    intro s' y ys hmem
    rcases List.mem_append.mp hmem with hmem | hmem
    · exact hafter s' y ys hmem
    · cases List.mem_singleton.mp hmem
      exact hqueue y ys rfl

theorem exists_firstBest (hrank : ∀ a b, better a b = some (decide (rank a < rank b)))
    (grouped : Grouped) :
    ∃ best, bestSender better grouped = some best ∧ FirstBest rank grouped best := by
  induction grouped using List.reverseRecOn with
  | nil => exact ⟨none, rfl, .empty (by simp)⟩
  | append_singleton grouped entry ih =>
    obtain ⟨s, queue⟩ := entry
    obtain ⟨best, hbest, hfirst⟩ := ih
    have hconcat : ∀ {best'}, BestStep better s queue best best' →
        bestSender better (grouped ++ [(s, queue)]) = some best' :=
      fun hstep => bestSender_concat_iff.mpr ⟨best, hbest, hstep⟩
    cases best with
    | none =>
      cases hfirst with
      | empty hempty =>
        cases queue with
        | nil =>
          refine ⟨none, hconcat .noQueue, .empty ?_⟩
          rw [List.forall_mem_append]
          exact ⟨hempty, by simp⟩
        | cons next rest =>
          refine ⟨some (s, next), hconcat .first, .found rfl ?_ (by simp)⟩
          intro s' y ys hmem
          exact absurd (hempty _ hmem) (by simp)
    | some best =>
      cases queue with
      | nil => exact ⟨some best, hconcat .noQueue, hfirst.concat (by simp)⟩
      | cons next rest =>
        by_cases hlt : rank next < rank best.2
        · refine ⟨some (s, next), hconcat (.replaced ?_), .found rfl ?_ (by simp)⟩
          · rw [hrank, decide_eq_true hlt]
          · exact fun s' y ys hmem => hlt.trans_le (hfirst.exists_mem.2 s' y ys hmem)
        · refine ⟨some best, hconcat (.kept ?_), hfirst.concat ?_⟩
          · rw [hrank, decide_eq_false hlt]
          · rintro y ys ⟨⟩
            exact not_lt.mp hlt

/-- The loop over a map that may be iterated in another order in each round. -/
def orderRounds (iterate : Grouped → Grouped) (better : Better) :
    ℕ → Grouped → Option (List PooledTransaction)
  | 0, _ => some []
  | fuel + 1, grouped =>
    match bestSender better (iterate grouped) with
    | none => none
    | some none => some []
    | some (some (sender, tx)) =>
      (orderRounds iterate better fuel (removeFirst sender grouped)).map (tx :: ·)

theorem orderRounds_id (better : Better) (fuel : ℕ) (grouped : Grouped) :
    orderRounds id better fuel grouped = orderGrouped better fuel grouped := by
  induction fuel generalizing grouped with
  | zero => rfl
  | succ fuel ih =>
    rw [orderRounds, orderGrouped, id_eq]
    rcases bestSender better grouped with _ | _ | ⟨sender, tx⟩
    · rfl
    · rfl
    · simp only [ih]

theorem Grouped.queue_mem {grouped : Grouped} {sender : Address} {tx : PooledTransaction}
    {txs : List PooledTransaction} (h : queue grouped sender = tx :: txs) :
    (sender, tx :: txs) ∈ grouped := by
  induction grouped with
  | nil => cases h
  | cons entry grouped ih =>
    rw [queue] at h
    split_ifs at h with hs
    · rw [hs, ← h]
      exact List.mem_cons_self
    · exact List.mem_cons_of_mem entry (ih h)

/-- Whatever the order of iteration, the loop ends with a greedy merge of the queues. -/
theorem orderRounds_greedy (hrank : ∀ a b, better a b = some (decide (rank a < rank b)))
    {iterate : Grouped → Grouped} (hiterate : ∀ g, (iterate g).Perm g) {fuel : ℕ}
    {grouped : Grouped} (hkeys : (grouped.map Prod.fst).Nodup)
    (hfuel : Grouped.size grouped ≤ fuel) :
    ∃ ordered, orderRounds iterate better fuel grouped = some ordered ∧
      Greedy (fun a b => rank a < rank b) (Grouped.queue grouped) ordered := by
  induction fuel generalizing grouped with
  | zero => exact ⟨[], rfl, .nil (Grouped.queue_of_size_zero (Nat.le_zero.mp hfuel))⟩
  | succ fuel ih =>
    obtain ⟨best, hbest, hfirst⟩ := exists_firstBest hrank (iterate grouped)
    rw [orderRounds, hbest]
    cases best with
    | none =>
      refine ⟨[], rfl, .nil (Grouped.queue_eq_nil fun entry hentry => ?_)⟩
      cases hfirst with
      | empty hempty => exact hempty entry ((hiterate grouped).mem_iff.mpr hentry)
    | some best =>
      obtain ⟨sender, tx⟩ := best
      obtain ⟨⟨rest, hmem⟩, hleast⟩ := hfirst.exists_mem
      rw [(hiterate grouped).mem_iff] at hmem
      obtain ⟨hkeys', hsize⟩ := removeFirst_smaller hkeys hmem
      obtain ⟨others, hothers, hgreedy⟩ := ih hkeys' (by omega)
      rw [queue_removeFirst hkeys hmem] at hgreedy
      refine ⟨tx :: others, by simp [hothers], ?_⟩
      refine .cons (Grouped.queue_of_mem hkeys hmem) (fun s y ys _ hys => ?_) hgreedy
      exact not_lt.mpr (hleast s y ys ((hiterate grouped).mem_iff.mpr
        (Grouped.queue_mem hys)))

/-- The order that a comparison gives to transactions, however the map is iterated. -/
def orderIterated (iterate : Grouped → Grouped) (hash : Address → ℕ) (better : Better)
    (txs : List PooledTransaction) : Option (List PooledTransaction) :=
  orderRounds iterate better txs.length (groupBySender hash txs)

theorem orderTransactions_eq {policy : SchedulingPolicyType}
    (hcomparison : policy.comparison = some better)
    (hash : List PooledTransaction → Address → ℕ) (txs : List PooledTransaction) :
    (createPolicy hash policy).orderTransactions txs =
      orderIterated id (hash txs) better txs := by
  have horder : orderIterated id (hash txs) better txs = orderBySender hash better txs :=
    orderRounds_id ..
  rw [horder]
  cases policy with
  | fcfs | fairBft => cases hcomparison
  | feePriority | blobPacking =>
    cases hcomparison
    rfl
  | timeBoost timeWindowMs =>
    simp only [SchedulingPolicyType.comparison, Option.ite_none_left_eq_some] at hcomparison
    rw [← Option.some.inj hcomparison.2]
    rfl

theorem orderIterated_greedy {policy : SchedulingPolicyType}
    (hcomparison : policy.comparison = some better) {iterate : Grouped → Grouped}
    (hiterate : ∀ g, (iterate g).Perm g) (hash : Address → ℕ) (txs : List PooledTransaction) :
    ∃ ordered, orderIterated iterate hash better txs = some ordered ∧
      Greedy (fun a b => policy.rank a < policy.rank b)
        (fun sender => byNonce (ofSender sender txs)) ordered := by
  obtain ⟨ordered, hordered, hgreedy⟩ := orderRounds_greedy (comparison_eq hcomparison) hiterate
    ((groupBySender_keys hash txs).nodup_iff.mpr (List.nodup_dedup _))
    (groupBySender_size hash txs).le
  rw [funext (queue_groupBySender hash txs)] at hgreedy
  exact ⟨ordered, hordered, hgreedy⟩

theorem sender_of_mem_byNonce {txs : List PooledTransaction} (sender : Address) :
    ∀ p ∈ byNonce (ofSender sender txs), p.tx.sender = sender := by
  intro p hp
  rw [byNonce, List.mem_insertionSort, ofSender, List.mem_filter] at hp
  exact of_decide_eq_true hp.2

theorem pairwise_byNonce (txs : List PooledTransaction) :
    (byNonce txs).Pairwise fun a b => a.tx.nonce ≤ b.tx.nonce :=
  List.pairwise_insertionSort _ _

theorem filter_byNonce (txs : List PooledTransaction) (nonce : UInt64) :
    (byNonce txs).filter (fun p => p.tx.nonce = nonce) =
      txs.filter fun p => p.tx.nonce = nonce := by
  refine filter_insertionSort (List.pairwise_of_forall_mem_list fun a ha b hb => ?_)
  rw [of_decide_eq_true (List.mem_filter.mp ha).2, of_decide_eq_true (List.mem_filter.mp hb).2]
  exact UInt64.le_refl nonce

/-- In whatever orders the map is iterated, a greedy policy returns a permutation of its input.
Each sender's transactions come by nonce, and those with one nonce in the order of the input. No
transaction comes when the first that remains of another sender beats it. -/
theorem orderIterated_spec (policy : SchedulingPolicyType) (better : Better)
    (hcomparison : policy.comparison = some better) (iterate : Grouped → Grouped)
    (hiterate : ∀ g, (iterate g).Perm g) (hash : Address → ℕ) (txs : List PooledTransaction) :
    ∃ ordered, orderIterated iterate hash better txs = some ordered ∧
      ordered.Perm txs ∧
      (∀ sender, (ofSender sender ordered).Pairwise fun a b => a.tx.nonce ≤ b.tx.nonce) ∧
      (∀ sender nonce, (ofSender sender ordered).filter (fun p => p.tx.nonce = nonce) =
        (ofSender sender txs).filter fun p => p.tx.nonce = nonce) ∧
      ∀ before x after, ordered = before ++ x :: after → ∀ sender, sender ≠ x.tx.sender →
        ∀ y, (ofSender sender after).head? = some y → better y x = some false := by
  obtain ⟨ordered, hordered, hgreedy⟩ := orderIterated_greedy hcomparison hiterate hash txs
  have hsenders : ∀ sender, ofSender sender ordered = byNonce (ofSender sender txs) :=
    hgreedy.merges.filter_eq sender_of_mem_byNonce
  refine ⟨ordered, hordered, ?_, ?_, ?_, ?_⟩
  · refine perm_of_filter_perm (f := fun p => p.tx.sender) fun sender => ?_
    rw [show ordered.filter _ = _ from hsenders sender]
    exact List.perm_insertionSort _ _
  · intro sender
    rw [hsenders]
    exact pairwise_byNonce _
  · intro sender nonce
    rw [hsenders]
    exact filter_byNonce _ nonce
  · intro before x after hsplit sender hsender y hy
    rw [comparison_eq hcomparison]
    simp [hgreedy.not_beats sender_of_mem_byNonce hsplit hsender hy]

def offer (sender : UInt8) (nonce timestamp : UInt64) (gasPrice : U256) : PooledTransaction :=
  ⟨⟨Vector.replicate 20 sender, Vector.replicate 20 9, 0, nonce, gasPrice, 21000, ⟨0, 0, 27⟩,
    timestamp, none⟩, 0, 0, 0⟩

def threeOffers : List PooledTransaction :=
  [offer 1 1 7000 9, offer 1 0 3000 1, offer 2 0 4000 5]

theorem orderIterated_spec_threeOffers :
    (∀ g : Grouped, g.reverse.Perm g) ∧ ∃ ordered,
      orderIterated List.reverse (fun _ => 0) FeePriorityPolicy.better threeOffers =
        some ordered ∧ ordered.Perm threeOffers ∧
      ordered = [offer 2 0 4000 5, offer 1 0 3000 1, offer 1 1 7000 9] := by
  refine ⟨fun g => List.reverse_perm g, ?_⟩
  obtain ⟨ordered, hordered, hperm, -⟩ := orderIterated_spec .feePriority
    FeePriorityPolicy.better rfl List.reverse (fun g => List.reverse_perm g) (fun _ => 0)
    threeOffers
  refine ⟨ordered, hordered, hperm, ?_⟩
  have heval : orderIterated List.reverse (fun _ => 0) FeePriorityPolicy.better threeOffers =
      some [offer 2 0 4000 5, offer 1 0 3000 1, offer 1 1 7000 9] := by decide +kernel
  exact Option.some.inj (hordered.symm.trans heval)

theorem window_le_of_not_lt {timeWindowMs : UInt64} {a b : PooledTransaction}
    (h : ¬(SchedulingPolicyType.timeBoost timeWindowMs).rank b <
      (SchedulingPolicyType.timeBoost timeWindowMs).rank a) :
    TimeBoostPolicy.window timeWindowMs a ≤ TimeBoostPolicy.window timeWindowMs b := by
  by_contra hlt
  exact h (rank_lt_rank.mpr (.inl (Nat.lt_of_not_le hlt)))

/-- Where the timestamps of each sender do not decrease along the nonces, the windows do not
decrease along the output. -/
theorem orderIterated_windows (timeWindowMs : UInt64) (hwindow : timeWindowMs ≠ 0)
    (iterate : Grouped → Grouped) (hiterate : ∀ g, (iterate g).Perm g) (hash : Address → ℕ)
    (txs : List PooledTransaction)
    (htimes : ∀ sender, (byNonce (ofSender sender txs)).Pairwise
      fun a b => a.tx.timestamp ≤ b.tx.timestamp) :
    ∃ ordered,
      orderIterated iterate hash (TimeBoostPolicy.better timeWindowMs) txs = some ordered ∧
        ordered.Pairwise fun a b =>
          TimeBoostPolicy.window timeWindowMs a ≤ TimeBoostPolicy.window timeWindowMs b := by
  have hcomparison : (SchedulingPolicyType.timeBoost timeWindowMs).comparison =
      some (TimeBoostPolicy.better timeWindowMs) := if_neg hwindow
  obtain ⟨ordered, hordered, hgreedy⟩ := orderIterated_greedy hcomparison hiterate hash txs
  refine ⟨ordered, hordered, hgreedy.pairwise (fun _ _ => window_le_of_not_lt) ?_⟩
  intro sender
  refine (htimes sender).imp fun {a b} hle => ?_
  rw [TimeBoostPolicy.window, TimeBoostPolicy.window, UInt64.toNat_div, UInt64.toNat_div]
  exact Nat.div_le_div_right (UInt64.le_iff_toNat_le.mp hle)

theorem orderIterated_windows_threeOffers :
    ∃ ordered,
      orderIterated List.reverse (fun _ => 0) (TimeBoostPolicy.better 5000) threeOffers =
        some ordered ∧
      ordered.Pairwise fun a b =>
        TimeBoostPolicy.window 5000 a ≤ TimeBoostPolicy.window 5000 b := by
  refine orderIterated_windows 5000 (by decide) List.reverse (fun g => List.reverse_perm g)
    (fun _ => 0) threeOffers fun sender => ?_
  by_cases h₁ : Vector.replicate 20 1 = sender
  · subst h₁
    decide +kernel
  · by_cases h₂ : Vector.replicate 20 2 = sender
    · subst h₂
      decide +kernel
    · simp [ofSender, threeOffers, offer, h₁, h₂, byNonce]

def iterationOrder (hash : Address → ℕ) (txs : List PooledTransaction) : List Address :=
  (groupBySender hash txs).map Prod.fst

theorem removeFirst_of_split {before after : Grouped} {sender : Address} {tx : PooledTransaction}
    (hkeys : ((before ++ (sender, [tx]) :: after).map Prod.fst).Nodup) :
    removeFirst sender (before ++ (sender, [tx]) :: after) = before ++ after := by
  simp only [List.map_append, List.map_cons, List.nodup_append, List.nodup_cons] at hkeys
  have hbefore : sender ∉ before.map Prod.fst := fun hmem =>
    hkeys.2.2 sender hmem sender List.mem_cons_self rfl
  have hsplit : removeFirst sender (before ++ (sender, [tx]) :: after) =
      removeFirst sender before ++ removeFirst sender after := by
    simp [removeFirst]
  rw [hsplit, removeFirst_of_notMem hbefore, removeFirst_of_notMem hkeys.2.1.1]

theorem filter_rank_eq_nil {grouped : Grouped} {r : β}
    (hone : ∀ entry ∈ grouped, entry.2.length = 1)
    (hlt : ∀ s y ys, (s, y :: ys) ∈ grouped → r < rank y) :
    (grouped.flatMap Prod.snd).filter (fun p => rank p = r) = [] := by
  rw [List.filter_eq_nil_iff]
  intro p hp hpr
  obtain ⟨⟨s, ys⟩, hentry, hp⟩ := List.mem_flatMap.mp hp
  obtain ⟨y, rfl⟩ := List.length_eq_one_iff.mp (hone (s, ys) hentry)
  rw [List.mem_singleton.mp hp] at hpr
  exact (hlt s y [] hentry).ne (of_decide_eq_true hpr).symm

/-- Where each queue has one transaction, equal ranks come in the order of the iteration. -/
theorem orderGrouped_filter_rank
    (hrank : ∀ a b, better a b = some (decide (rank a < rank b))) {fuel : ℕ}
    {grouped : Grouped} {ordered : List PooledTransaction}
    (hkeys : (grouped.map Prod.fst).Nodup) (hone : ∀ entry ∈ grouped, entry.2.length = 1)
    (hfuel : grouped.length ≤ fuel) (h : orderGrouped better fuel grouped = some ordered)
    (r : β) :
    ordered.filter (fun p => rank p = r) =
      (grouped.flatMap Prod.snd).filter fun p => rank p = r := by
  induction fuel generalizing grouped ordered with
  | zero =>
    rw [List.length_eq_zero_iff.mp (Nat.le_zero.mp hfuel), ← Option.some.inj h]
    rfl
  | succ fuel ih =>
    obtain ⟨best, hbest, hfirst⟩ := exists_firstBest hrank grouped
    rw [orderGrouped, hbest] at h
    cases hfirst with
    | empty hempty =>
      rw [← Option.some.inj h, List.flatMap_eq_nil_iff.mpr hempty]
    | @found before after sender tx rest hsplit hbefore hafter =>
      subst hsplit
      have hrest : rest = [] := by simpa using hone (sender, tx :: rest) (by simp)
      subst hrest
      obtain ⟨others, hothers, rfl⟩ := Option.map_eq_some_iff.mp h
      have hsub : (before ++ after).Sublist (before ++ (sender, [tx]) :: after) :=
        (List.sublist_cons_self _ _).append_left before
      have hkeys' : ((before ++ after).map Prod.fst).Nodup := hkeys.sublist (hsub.map Prod.fst)
      rw [removeFirst_of_split hkeys] at hothers
      have hrec := ih hkeys' (fun entry hentry => hone entry (hsub.subset hentry))
        (by simp at hfuel ⊢; omega) hothers
      rw [List.filter_cons, hrec]
      simp only [List.flatMap_append, List.flatMap_cons, List.filter_append,
        List.singleton_append, List.filter_cons]
      by_cases htx : rank tx = r
      · have hnone : (before.flatMap Prod.snd).filter (fun p => rank p = r) = [] :=
          filter_rank_eq_nil (fun entry hentry => hone entry (List.mem_append_left _ hentry))
            (htx ▸ hbefore)
        simp [htx, hnone]
      · simp [htx]

def iterated (hash : Address → ℕ) (txs : List PooledTransaction) : List PooledTransaction :=
  (groupBySender hash txs).flatMap Prod.snd

theorem groupBySender_eq (hash : Address → ℕ) (txs : List PooledTransaction) :
    groupBySender hash txs =
      (iterationOrder hash txs).map fun sender => (sender, byNonce (ofSender sender txs)) := by
  simp only [iterationOrder, groupBySender, List.map_map, Function.comp_def, List.map_id']
  rfl

theorem mem_iterationOrder (hash : Address → ℕ) (txs : List PooledTransaction)
    (sender : Address) : sender ∈ iterationOrder hash txs ↔ ∃ p ∈ txs, p.tx.sender = sender := by
  rw [iterationOrder, (groupBySender_keys hash txs).mem_iff, List.mem_dedup, List.mem_map]

theorem nodup_iterationOrder (hash : Address → ℕ) (txs : List PooledTransaction) :
    (iterationOrder hash txs).Nodup :=
  (groupBySender_keys hash txs).nodup_iff.mpr (List.nodup_dedup _)

theorem pairwise_iterationOrder (hash : Address → ℕ) (txs : List PooledTransaction) :
    (iterationOrder hash txs).Pairwise fun a b => hash a ≤ hash b := by
  have : Std.Total fun a b => hash a ≤ hash b := ⟨fun a b => Nat.le_total _ _⟩
  have : IsTrans Address fun a b => hash a ≤ hash b := ⟨fun _ _ _ => Nat.le_trans⟩
  simp only [iterationOrder, groupBySender, List.map_map, Function.comp_def, List.map_id']
  exact List.pairwise_insertionSort _ _

section OnePerSender

variable {txs : List PooledTransaction} (hsenders : (txs.map (·.tx.sender)).Nodup)
include hsenders

theorem byNonce_ofSender_eq_singleton {p : PooledTransaction} (hp : p ∈ txs) :
    byNonce (ofSender p.tx.sender txs) = [p] := by
  rw [ofSender, filter_eq_singleton hsenders hp]
  rfl

theorem length_queue_groupBySender (hash : Address → ℕ) :
    ∀ entry ∈ groupBySender hash txs, entry.2.length = 1 := by
  intro entry hentry
  rw [groupBySender_eq] at hentry
  obtain ⟨sender, hsender, rfl⟩ := List.mem_map.mp hentry
  obtain ⟨p, hp, rfl⟩ := (mem_iterationOrder hash txs sender).mp hsender
  rw [byNonce_ofSender_eq_singleton hsenders hp]
  rfl

theorem map_sender_iterated (hash : Address → ℕ) :
    (iterated hash txs).map (·.tx.sender) = iterationOrder hash txs := by
  have hqueue : ∀ sender ∈ iterationOrder hash txs,
      (byNonce (ofSender sender txs)).map (·.tx.sender) = [sender] := by
    intro sender hsender
    obtain ⟨p, hp, rfl⟩ := (mem_iterationOrder hash txs sender).mp hsender
    rw [byNonce_ofSender_eq_singleton hsenders hp]
    rfl
  rw [iterated, groupBySender_eq, List.flatMap_map, List.map_flatMap,
    List.flatMap_congr hqueue, List.flatMap_singleton']

theorem mem_iterated (hash : Address → ℕ) {p : PooledTransaction} (hp : p ∈ txs) :
    p ∈ iterated hash txs := by
  rw [iterated, groupBySender_eq, List.flatMap_map, List.mem_flatMap]
  refine ⟨p.tx.sender, (mem_iterationOrder hash txs _).mpr ⟨p, hp, rfl⟩, ?_⟩
  rw [byNonce_ofSender_eq_singleton hsenders hp]
  exact List.mem_singleton_self p

end OnePerSender

def Tied (a b : PooledTransaction) : Prop :=
  a.tx.boostBid = b.tx.boostBid ∧ a.tx.gasPrice = b.tx.gasPrice ∧ a.tx.timestamp = b.tx.timestamp

/-- Each two tied transactions of a window stand in the output as in the input. -/
def TiesByArrival (timeWindowMs : UInt64) (txs ordered : List PooledTransaction) : Prop :=
  ∀ a b, [a, b].Sublist txs →
    TimeBoostPolicy.window timeWindowMs a = TimeBoostPolicy.window timeWindowMs b →
    Tied a b → [a, b].Sublist ordered

theorem Tied.rank_eq {timeWindowMs : UInt64} {a b : PooledTransaction} (h : Tied a b) :
    (SchedulingPolicyType.timeBoost timeWindowMs).rank a =
      (SchedulingPolicyType.timeBoost timeWindowMs).rank b := by
  obtain ⟨hbid, hprice, htime⟩ := h
  have hwindow : TimeBoostPolicy.window timeWindowMs a = TimeBoostPolicy.window timeWindowMs b := by
    rw [TimeBoostPolicy.window, TimeBoostPolicy.window, htime]
  have hboost : TimeBoostPolicy.boost a = TimeBoostPolicy.boost b := by
    rw [TimeBoostPolicy.boost, TimeBoostPolicy.boost, hbid]
  change a.rank (TimeBoostPolicy.window timeWindowMs a) (TimeBoostPolicy.boost a) =
    b.rank (TimeBoostPolicy.window timeWindowMs b) (TimeBoostPolicy.boost b)
  rw [hwindow, hboost, PooledTransaction.rank, PooledTransaction.rank, hprice, htime]

/-- Two tied transactions come in the order in which the map has their senders. -/
theorem timeBoost_pair_iff {timeWindowMs : UInt64} {txs ordered : List PooledTransaction}
    {hash : List PooledTransaction → Address → ℕ} (hwindow : timeWindowMs ≠ 0)
    (hsenders : (txs.map (·.tx.sender)).Nodup)
    (h : (createPolicy hash (.timeBoost timeWindowMs)).orderTransactions txs = some ordered)
    {a b : PooledTransaction} (ha : a ∈ txs) (hb : b ∈ txs) (htied : Tied a b) :
    [a, b].Sublist ordered ↔
      [a.tx.sender, b.tx.sender].Sublist (iterationOrder (hash txs) txs) := by
  have hsize : (groupBySender (hash txs) txs).length ≤ txs.length := by
    rw [← List.length_map (f := Prod.fst), (groupBySender_keys (hash txs) txs).length_eq]
    exact (List.dedup_sublist _).length_le.trans (List.length_map _).le
  have hcomparison : (SchedulingPolicyType.timeBoost timeWindowMs).comparison =
      some (TimeBoostPolicy.better timeWindowMs) := if_neg hwindow
  set rank := (SchedulingPolicyType.timeBoost timeWindowMs).rank with hrank
  have hfilter : ordered.filter (fun p => rank p = rank b) =
      (iterated (hash txs) txs).filter (fun p => rank p = rank b) :=
    orderGrouped_filter_rank (comparison_eq hcomparison) (nodup_iterationOrder (hash txs) txs)
      (length_queue_groupBySender hsenders (hash txs)) hsize h (rank b)
  have hnodup : ((iterated (hash txs) txs).map (·.tx.sender)).Nodup := by
    rw [map_sender_iterated hsenders]
    exact nodup_iterationOrder (hash txs) txs
  have hra : decide (rank a = rank b) = true := decide_eq_true htied.rank_eq
  have hrb : decide (rank b = rank b) = true := decide_eq_true rfl
  calc [a, b].Sublist ordered
      ↔ [a, b].Sublist (ordered.filter fun p => rank p = rank b) :=
        (pair_sublist_filter_iff (p := fun p => decide (rank p = rank b)) hra hrb).symm
    _ ↔ [a, b].Sublist ((iterated (hash txs) txs).filter fun p => rank p = rank b) := by
        rw [hfilter]
    _ ↔ [a, b].Sublist (iterated (hash txs) txs) :=
        pair_sublist_filter_iff (p := fun p => decide (rank p = rank b)) hra hrb
    _ ↔ [a.tx.sender, b.tx.sender].Sublist ((iterated (hash txs) txs).map (·.tx.sender)) :=
        (pair_sublist_map_iff (f := fun p => p.tx.sender) hnodup
          (mem_iterated hsenders (hash txs) ha) (mem_iterated hsenders (hash txs) hb)).symm
    _ ↔ _ := by rw [map_sender_iterated hsenders]

/-- A map that has `second` before all others. -/
theorem not_sublist_iterationOrder {txs : List PooledTransaction} {first second : Address}
    (hne : first ≠ second) :
    ¬[first, second].Sublist
      (iterationOrder (fun address => if address = second then 0 else 1) txs) := by
  intro h
  have hpair := (pairwise_iterationOrder _ txs).sublist h
  simp [hne] at hpair

/-- With one transaction for each sender, the ties of a window come in the order of the input
exactly when the map is iterated in that order. So they do for every order of the map exactly
when there are no ties. -/
theorem timeBoost_ties_iff (timeWindowMs : UInt64) (hwindow : timeWindowMs ≠ 0)
    (txs : List PooledTransaction) (hsenders : (txs.map (·.tx.sender)).Nodup) :
    (∀ hash, ∃ ordered,
      (createPolicy hash (.timeBoost timeWindowMs)).orderTransactions txs = some ordered ∧
        (TiesByArrival timeWindowMs txs ordered ↔ ∀ a b, [a, b].Sublist txs →
          TimeBoostPolicy.window timeWindowMs a = TimeBoostPolicy.window timeWindowMs b →
          Tied a b →
            [a.tx.sender, b.tx.sender].Sublist (iterationOrder (hash txs) txs))) ∧
      ((∀ hash, ∃ ordered,
        (createPolicy hash (.timeBoost timeWindowMs)).orderTransactions txs = some ordered ∧
          TiesByArrival timeWindowMs txs ordered) ↔
        ∀ a b, [a, b].Sublist txs →
          TimeBoostPolicy.window timeWindowMs a = TimeBoostPolicy.window timeWindowMs b →
          ¬Tied a b) := by
  have hcomparison : (SchedulingPolicyType.timeBoost timeWindowMs).comparison =
      some (TimeBoostPolicy.better timeWindowMs) := if_neg hwindow
  have hreturns : ∀ hash, ∃ ordered,
      (createPolicy hash (.timeBoost timeWindowMs)).orderTransactions txs = some ordered := by
    intro hash
    obtain ⟨ordered, hordered, -⟩ := orderIterated_greedy hcomparison (fun _ => .refl _)
      (hash txs) txs
    exact ⟨ordered, (orderTransactions_eq hcomparison hash txs).trans hordered⟩
  constructor
  · intro hash
    obtain ⟨ordered, hordered⟩ := hreturns hash
    refine ⟨ordered, hordered, ?_⟩
    constructor
    · intro h a b hpair hsame htied
      exact (timeBoost_pair_iff hwindow hsenders hordered (hpair.subset (by simp))
        (hpair.subset (by simp)) htied).mp (h a b hpair hsame htied)
    · intro h a b hpair hsame htied
      exact (timeBoost_pair_iff hwindow hsenders hordered (hpair.subset (by simp))
        (hpair.subset (by simp)) htied).mpr (h a b hpair hsame htied)
  · constructor
    · intro h a b hpair hsame htied
      obtain ⟨ordered, hordered, hties⟩ :=
        h fun _ address => if address = b.tx.sender then 0 else 1
      have hsub := (timeBoost_pair_iff hwindow hsenders hordered (hpair.subset (by simp))
        (hpair.subset (by simp)) htied).mp (hties a b hpair hsame htied)
      refine not_sublist_iterationOrder ?_ hsub
      have hnodup := hsenders.sublist (hpair.map (·.tx.sender))
      simpa using hnodup
    · intro h hash
      obtain ⟨ordered, hordered⟩ := hreturns hash
      exact ⟨ordered, hordered, fun a b hpair hsame htied =>
        absurd htied (h a b hpair hsame)⟩

theorem timeBoost_noTies :
    ((([offer 1 0 3000 1, offer 2 0 3000 2]).map (·.tx.sender)).Nodup) ∧
      ∀ hash, ∃ ordered,
        (createPolicy hash (.timeBoost 5000)).orderTransactions
          [offer 1 0 3000 1, offer 2 0 3000 2] = some ordered ∧
        TiesByArrival 5000 [offer 1 0 3000 1, offer 2 0 3000 2] ordered := by
  have hsenders : (([offer 1 0 3000 1, offer 2 0 3000 2]).map (·.tx.sender)).Nodup := by
    decide +kernel
  refine ⟨hsenders, (timeBoost_ties_iff 5000 (by decide) _ hsenders).2.mpr ?_⟩
  intro a b hpair _ htied
  have hpair := hpair.eq_of_length rfl
  simp only [List.cons.injEq, and_true] at hpair
  rw [hpair.1, hpair.2] at htied
  exact absurd htied.2.1 (by decide)

/-- The same gas price and time. Whose transaction comes first is up to the map. -/
theorem timeBoost_tie_broken :
    (createPolicy (fun _ a => if a = Vector.replicate 20 1 then 0 else 1)
        (.timeBoost 5000)).orderTransactions [offer 1 0 3000 1, offer 2 0 3000 1] =
        some [offer 1 0 3000 1, offer 2 0 3000 1] ∧
      (createPolicy (fun _ a => if a = Vector.replicate 20 2 then 0 else 1)
        (.timeBoost 5000)).orderTransactions [offer 1 0 3000 1, offer 2 0 3000 1] =
        some [offer 2 0 3000 1, offer 1 0 3000 1] ∧
      ¬TiesByArrival 5000 [offer 1 0 3000 1, offer 2 0 3000 1]
        [offer 2 0 3000 1, offer 1 0 3000 1] := by
  refine ⟨by decide +kernel, by decide +kernel, fun h => ?_⟩
  have hsub := h (offer 1 0 3000 1) (offer 2 0 3000 1) (.refl _) rfl ⟨rfl, rfl, rfl⟩
  exact absurd (hsub.eq_of_length rfl) (by decide)

end RollupX.Sequencer
