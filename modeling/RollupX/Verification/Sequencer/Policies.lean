import RollupX.Library.Merge
import RollupX.Model.Sequencer.Policies

/-! What the policies do to the transactions of one sender. -/

namespace RollupX.Sequencer

open Executor (Address)
open Merge

variable {better : Better}

namespace Grouped

def queue : Grouped → Address → List PooledTransaction
  | [], _ => []
  | (s, txs) :: grouped, sender => if sender = s then txs else queue grouped sender

def size (grouped : Grouped) : ℕ :=
  (grouped.map fun entry => entry.2.length).sum

theorem queue_of_notMem {grouped : Grouped} {sender : Address}
    (h : sender ∉ grouped.map Prod.fst) : queue grouped sender = [] := by
  induction grouped with
  | nil => rfl
  | cons entry grouped ih =>
    rw [List.map_cons, List.mem_cons, not_or] at h
    rw [queue, if_neg h.1, ih h.2]

theorem queue_of_mem {grouped : Grouped} {sender : Address} {txs : List PooledTransaction}
    (hkeys : (grouped.map Prod.fst).Nodup) (h : (sender, txs) ∈ grouped) :
    queue grouped sender = txs := by
  induction grouped with
  | nil => simp at h
  | cons entry grouped ih =>
    obtain ⟨hfresh, hkeys⟩ := List.nodup_cons.mp hkeys
    rcases List.mem_cons.mp h with rfl | h
    · rw [queue, if_pos rfl]
    · have hne : sender ≠ entry.1 := fun heq =>
        hfresh (heq ▸ List.mem_map_of_mem (f := Prod.fst) h)
      rw [queue, if_neg hne, ih hkeys h]

theorem queue_append (before after : Grouped) (sender : Address) :
    queue (before ++ after) sender =
      if sender ∈ before.map Prod.fst then queue before sender else queue after sender := by
  induction before with
  | nil => simp
  | cons entry before ih =>
    rw [List.cons_append, queue, queue, ih]
    by_cases h : sender = entry.1
    · simp [h]
    · simp only [h, if_false, List.map_cons, List.mem_cons, false_or]

theorem queue_eq_nil {grouped : Grouped} (h : ∀ entry ∈ grouped, entry.2 = [])
    (sender : Address) : queue grouped sender = [] := by
  induction grouped with
  | nil => rfl
  | cons entry grouped ih =>
    rw [List.forall_mem_cons] at h
    rw [queue, h.1, ih h.2, ite_self]

theorem queue_of_size_zero {grouped : Grouped} (h : size grouped = 0) (sender : Address) :
    queue grouped sender = [] := by
  refine queue_eq_nil (fun entry hentry => ?_) sender
  exact List.length_eq_zero_iff.mp
    (List.sum_eq_zero_iff_forall_eq_nat.mp h _ (List.mem_map_of_mem hentry))

end Grouped

/-- What the loop does with the best so far at one sender. -/
inductive BestStep (better : Better) (sender : Address) :
    List PooledTransaction → Option (Address × PooledTransaction) →
      Option (Address × PooledTransaction) → Prop where
  | noQueue {best : Option (Address × PooledTransaction)} : BestStep better sender [] best best
  | first {next : PooledTransaction} {rest : List PooledTransaction} :
      BestStep better sender (next :: rest) none (some (sender, next))
  | replaced {next : PooledTransaction} {rest : List PooledTransaction}
      {best : Address × PooledTransaction} (hbetter : better next best.2 = some true) :
      BestStep better sender (next :: rest) (some best) (some (sender, next))
  | kept {next : PooledTransaction} {rest : List PooledTransaction}
      {best : Address × PooledTransaction} (hbetter : better next best.2 = some false) :
      BestStep better sender (next :: rest) (some best) (some best)

theorem bestSender_concat_iff {grouped : Grouped} {sender : Address}
    {queue : List PooledTransaction} {best' : Option (Address × PooledTransaction)} :
    bestSender better (grouped ++ [(sender, queue)]) = some best' ↔
      ∃ best, bestSender better grouped = some best ∧
        BestStep better sender queue best best' := by
  rw [bestSender, List.foldlM_append, ← bestSender, Option.bind_eq_bind, Option.bind_eq_some_iff]
  refine exists_congr fun best => and_congr_right fun _ => ?_
  simp only [List.foldlM_cons, List.foldlM_nil]
  constructor
  · intro h
    cases queue with
    | nil =>
      cases h
      exact .noQueue
    | cons next rest =>
      cases best with
      | none =>
        cases h
        exact .first
      | some best =>
        obtain ⟨_, h, hlast⟩ := Option.bind_eq_some_iff.mp h
        obtain ⟨nextIsBetter, hbetter, rfl⟩ := Option.map_eq_some_iff.mp h
        cases hlast
        cases nextIsBetter with
        | true => exact .replaced hbetter
        | false => exact .kept hbetter
  · intro h
    cases h with
    | noQueue => rfl
    | first => rfl
    | replaced hbetter | kept hbetter => simp [hbetter]

/-- The best sender is one of the map, with its first transaction. Where there is none, the
map has no transactions. -/
theorem bestSender_spec {grouped : Grouped} {best : Option (Address × PooledTransaction)}
    (h : bestSender better grouped = some best) :
    (best = none → ∀ entry ∈ grouped, entry.2 = []) ∧
      ∀ sender tx, best = some (sender, tx) → ∃ rest, (sender, tx :: rest) ∈ grouped := by
  induction grouped using List.reverseRecOn generalizing best with
  | nil =>
    rw [← Option.some.inj h]
    simp
  | append_singleton grouped entry ih =>
    obtain ⟨s, queue⟩ := entry
    obtain ⟨before, hbefore, hstep⟩ := bestSender_concat_iff.mp h
    obtain ⟨hnone, hsome⟩ := ih hbefore
    have hkeeps : ∀ sender tx, before = some (sender, tx) →
        ∃ rest, (sender, tx :: rest) ∈ grouped ++ [(s, queue)] := by
      intro sender tx hbest
      obtain ⟨rest, hrest⟩ := hsome sender tx hbest
      exact ⟨rest, List.mem_append_left _ hrest⟩
    have hnext : ∀ {next rest}, queue = next :: rest → ∀ sender tx,
        some (s, next) = some (sender, tx) →
          ∃ rest, (sender, tx :: rest) ∈ grouped ++ [(s, queue)] := by
      rintro next rest rfl _ _ ⟨⟩
      exact ⟨rest, by simp⟩
    cases hstep with
    | noQueue =>
      refine ⟨fun hbest => ?_, hkeeps⟩
      rw [List.forall_mem_append]
      exact ⟨hnone hbest, by simp⟩
    | first | replaced hbetter => exact ⟨nofun, hnext rfl⟩
    | kept hbetter => exact ⟨nofun, hkeeps⟩

theorem removeFirst_of_notMem {sender : Address} {grouped : Grouped}
    (h : sender ∉ grouped.map Prod.fst) : removeFirst sender grouped = grouped := by
  induction grouped with
  | nil => rfl
  | cons entry grouped ih =>
    rw [List.map_cons, List.mem_cons, not_or] at h
    have hhead : removeFirst sender (entry :: grouped) =
        entry :: removeFirst sender grouped := by
      simp [removeFirst, Ne.symm h.1]
    rw [hhead, ih h.2]

theorem removeFirst_of_mem {sender : Address} {grouped : Grouped} {tx : PooledTransaction}
    {rest : List PooledTransaction} (hkeys : (grouped.map Prod.fst).Nodup)
    (h : (sender, tx :: rest) ∈ grouped) :
    ∃ before after, grouped = before ++ (sender, tx :: rest) :: after ∧
      sender ∉ before.map Prod.fst ∧ sender ∉ after.map Prod.fst ∧
      removeFirst sender grouped =
        before ++ (if rest = [] then after else (sender, rest) :: after) := by
  obtain ⟨before, after, rfl⟩ := List.append_of_mem h
  rw [List.map_append, List.map_cons, List.nodup_append, List.nodup_cons] at hkeys
  have hbefore : sender ∉ before.map Prod.fst := fun hmem =>
    hkeys.2.2 sender hmem sender List.mem_cons_self rfl
  refine ⟨before, after, rfl, hbefore, hkeys.2.1.1, ?_⟩
  have hsplit : removeFirst sender (before ++ (sender, tx :: rest) :: after) =
      removeFirst sender before ++ removeFirst sender ((sender, tx :: rest) :: after) :=
    List.filterMap_append
  rw [hsplit, removeFirst_of_notMem hbefore]
  congr 1
  cases rest with
  | nil | cons next rest => simpa [removeFirst] using removeFirst_of_notMem hkeys.2.1.1

theorem queue_removeFirst {sender : Address} {grouped : Grouped} {tx : PooledTransaction}
    {rest : List PooledTransaction} (hkeys : (grouped.map Prod.fst).Nodup)
    (h : (sender, tx :: rest) ∈ grouped) :
    Grouped.queue (removeFirst sender grouped) =
      Function.update (Grouped.queue grouped) sender rest := by
  obtain ⟨before, after, rfl, hbefore, hafter, hremove⟩ := removeFirst_of_mem hkeys h
  funext other
  rw [hremove, Grouped.queue_append, Function.update_apply, Grouped.queue_append]
  by_cases hother : other = sender
  · subst hother
    rw [if_neg hbefore, if_pos rfl]
    split_ifs with hrest
    · rw [hrest, Grouped.queue_of_notMem hafter]
    · rw [Grouped.queue, if_pos rfl]
  · rw [if_neg hother, Grouped.queue, if_neg hother]
    split_ifs with hmem hrest
    · rfl
    · rfl
    · rw [Grouped.queue, if_neg hother]

theorem removeFirst_smaller {sender : Address} {grouped : Grouped} {tx : PooledTransaction}
    {rest : List PooledTransaction} (hkeys : (grouped.map Prod.fst).Nodup)
    (h : (sender, tx :: rest) ∈ grouped) :
    ((removeFirst sender grouped).map Prod.fst).Nodup ∧
      Grouped.size grouped = Grouped.size (removeFirst sender grouped) + 1 := by
  obtain ⟨before, after, rfl, -, -, hremove⟩ := removeFirst_of_mem hkeys h
  rw [hremove]
  split_ifs with hrest
  · refine ⟨hkeys.sublist (by simp), ?_⟩
    simp [Grouped.size, hrest]
    omega
  · refine ⟨by simpa using hkeys, ?_⟩
    simp [Grouped.size]
    omega

theorem orderGrouped_merges {fuel : ℕ} {grouped : Grouped} {ordered : List PooledTransaction}
    (hkeys : (grouped.map Prod.fst).Nodup) (hfuel : Grouped.size grouped ≤ fuel)
    (h : orderGrouped better fuel grouped = some ordered) :
    Merges (Grouped.queue grouped) ordered := by
  induction fuel generalizing grouped ordered with
  | zero =>
    rw [← Option.some.inj h]
    exact .nil (Grouped.queue_of_size_zero (Nat.le_zero.mp hfuel))
  | succ fuel ih =>
    rw [orderGrouped] at h
    cases hbest : bestSender better grouped with
    | none => simp [hbest] at h
    | some best =>
      obtain ⟨hnone, hsome⟩ := bestSender_spec hbest
      cases best with
      | none =>
        rw [hbest] at h
        rw [← Option.some.inj h]
        exact .nil (Grouped.queue_eq_nil (hnone rfl))
      | some best =>
        obtain ⟨sender, tx⟩ := best
        obtain ⟨rest, hmem⟩ := hsome sender tx rfl
        obtain ⟨hkeys', hsize⟩ := removeFirst_smaller hkeys hmem
        simp only [hbest, Option.map_eq_some_iff] at h
        obtain ⟨others, hothers, rfl⟩ := h
        have hmerges := ih hkeys' (by omega) hothers
        rw [queue_removeFirst hkeys hmem] at hmerges
        exact .cons (Grouped.queue_of_mem hkeys hmem) hmerges

def ofSender (sender : Address) (txs : List PooledTransaction) : List PooledTransaction :=
  txs.filter fun p => p.tx.sender = sender

def byNonce (txs : List PooledTransaction) : List PooledTransaction :=
  txs.insertionSort fun a b => a.tx.nonce ≤ b.tx.nonce

theorem groupBySender_keys (hash : Address → ℕ) (txs : List PooledTransaction) :
    ((groupBySender hash txs).map Prod.fst).Perm (txs.map (·.tx.sender)).dedup := by
  simp only [groupBySender, List.map_map, Function.comp_def, List.map_id']
  exact List.perm_insertionSort _ _

theorem groupBySender_size (hash : Address → ℕ) (txs : List PooledTransaction) :
    Grouped.size (groupBySender hash txs) = txs.length := by
  have hperm := (List.perm_insertionSort (fun a b => hash a ≤ hash b)
    (txs.map (·.tx.sender)).dedup).map fun sender => (ofSender sender txs).length
  rw [← sum_length_filter (fun p => p.tx.sender) txs]
  simpa [Grouped.size, groupBySender, ofSender, Function.comp_def] using hperm.sum_eq

theorem queue_groupBySender (hash : Address → ℕ) (txs : List PooledTransaction)
    (sender : Address) :
    Grouped.queue (groupBySender hash txs) sender = byNonce (ofSender sender txs) := by
  have hkeys := groupBySender_keys hash txs
  by_cases hmem : sender ∈ txs.map (·.tx.sender)
  · refine Grouped.queue_of_mem (hkeys.nodup_iff.mpr (List.nodup_dedup _)) ?_
    rw [groupBySender, List.mem_map]
    refine ⟨sender, ?_, rfl⟩
    rw [List.mem_insertionSort, List.mem_dedup]
    exact hmem
  · have hnone : ofSender sender txs = [] := by
      rw [ofSender, List.filter_eq_nil_iff]
      intro p hp hsender
      exact hmem (List.mem_map.mpr ⟨p, hp, of_decide_eq_true hsender⟩)
    rw [hnone, Grouped.queue_of_notMem]
    · rfl
    · rw [hkeys.mem_iff, List.mem_dedup]
      exact hmem

/-- Each sender's transactions come by nonce, whatever the comparison of the heads. -/
theorem ofSender_orderBySender {hash : List PooledTransaction → Address → ℕ}
    {txs ordered : List PooledTransaction} (h : orderBySender hash better txs = some ordered)
    (sender : Address) : ofSender sender ordered = byNonce (ofSender sender txs) := by
  have hkeys := (groupBySender_keys (hash txs) txs).nodup_iff.mpr (List.nodup_dedup _)
  have hmerges := orderGrouped_merges hkeys (groupBySender_size (hash txs) txs).le h
  rw [← queue_groupBySender (hash txs)]
  refine hmerges.filter_eq (f := fun p => p.tx.sender) (fun sender p hp => ?_) sender
  rw [queue_groupBySender, byNonce, List.mem_insertionSort, ofSender, List.mem_filter] at hp
  exact of_decide_eq_true hp.2

theorem createPolicy_perm {hash : List PooledTransaction → Address → ℕ}
    {policy : SchedulingPolicyType} {txs ordered : List PooledTransaction}
    (h : (createPolicy hash policy).orderTransactions txs = some ordered) :
    ordered.Perm txs := by
  have hgrouped : ∀ {better : Better}, orderBySender hash better txs = some ordered →
      ordered.Perm txs := by
    intro better horder
    refine perm_of_filter_perm (f := fun p => p.tx.sender) fun sender => ?_
    rw [show ordered.filter _ = _ from ofSender_orderBySender horder sender]
    exact List.perm_insertionSort _ _
  cases policy with
  | fcfs => rw [← Option.some.inj h]
  | feePriority | timeBoost timeWindowMs | blobPacking => exact hgrouped h
  | fairBft =>
    rw [← Option.some.inj h]
    exact List.perm_insertionSort _ _

theorem ordered_perm {env : OrchestratorEnv} {hash : List PooledTransaction → Address → ℕ}
    {policy : SchedulingPolicyType} (hpolicy : env.policy = createPolicy hash policy)
    {txs ordered : List PooledTransaction}
    (h : env.policy.orderTransactions txs = some ordered) : ordered.Perm txs := by
  rw [hpolicy] at h
  exact createPolicy_perm h

def InNonceOrder (txs : List PooledTransaction) : Prop :=
  txs.Pairwise fun a b => a.tx.sender = b.tx.sender → a.tx.nonce < b.tx.nonce

def InTimeOrder (txs : List PooledTransaction) : Prop :=
  txs.Pairwise fun a b => a.tx.sender = b.tx.sender → a.tx.timestamp ≤ b.tx.timestamp

instance (txs : List PooledTransaction) : Decidable (InNonceOrder txs) :=
  inferInstanceAs (Decidable (List.Pairwise _ _))

instance (txs : List PooledTransaction) : Decidable (InTimeOrder txs) :=
  inferInstanceAs (Decidable (List.Pairwise _ _))

theorem inNonceOrder_iff {txs : List PooledTransaction} :
    InNonceOrder txs ↔ ∀ sender, (ofSender sender txs).Pairwise (·.tx.nonce < ·.tx.nonce) :=
  pairwise_iff_filter

theorem InNonceOrder.byNonce_eq {txs : List PooledTransaction} (h : InNonceOrder txs)
    (sender : Address) : byNonce (ofSender sender txs) = ofSender sender txs :=
  List.Pairwise.insertionSort_eq ((inNonceOrder_iff.mp h sender).imp fun hlt => UInt64.le_of_lt hlt)

theorem InTimeOrder.ofSender_insertionSort {txs : List PooledTransaction}
    (h : InTimeOrder txs) (sender : Address) :
    ofSender sender (txs.insertionSort fun a b => a.tx.timestamp ≤ b.tx.timestamp) =
      ofSender sender txs := by
  exact filter_insertionSort (pairwise_iff_filter.mp h sender)

/-- A policy leaves nonce order as it finds it. For `FairBft` the timestamps have to agree
with the nonces. -/
theorem createPolicy_ofSender {hash : List PooledTransaction → Address → ℕ}
    {policy : SchedulingPolicyType} {txs ordered : List PooledTransaction}
    (h : (createPolicy hash policy).orderTransactions txs = some ordered)
    (hnonces : InNonceOrder txs) (htimes : policy = .fairBft → InTimeOrder txs)
    (sender : Address) : ofSender sender ordered = ofSender sender txs := by
  have hgrouped : ∀ {better : Better}, orderBySender hash better txs = some ordered →
      ofSender sender ordered = ofSender sender txs := by
    intro better horder
    rw [ofSender_orderBySender horder, hnonces.byNonce_eq]
  cases policy with
  | fcfs => rw [← Option.some.inj h]
  | feePriority | timeBoost timeWindowMs | blobPacking => exact hgrouped h
  | fairBft =>
    rw [← Option.some.inj h]
    exact (htimes rfl).ofSender_insertionSort sender

end RollupX.Sequencer
