import RollupX.Verification.Sequencer.ForcedOrder
import RollupX.Verification.Sequencer.Policies
import RollupX.Verification.Sequencer.Pool

/-! The order of one sender's transactions over all batches. -/

namespace RollupX.Sequencer

open Machine

variable {env : OrchestratorEnv}

/-- A transaction that exceeds the limit, after those accepted before it, is followed by none of
the same sender with a smaller gas limit. `gas` is what was accepted before the list. -/
def noneOvertaken (maxGas : ℕ) : ℕ → List PooledTransaction → Bool
  | _, [] => true
  | gas, tx :: txs =>
    if gas + tx.tx.gasLimit.toNat ≤ maxGas then
      noneOvertaken maxGas (gas + tx.tx.gasLimit.toNat) txs
    else
      (txs.all fun later =>
        later.tx.sender ≠ tx.tx.sender || tx.tx.gasLimit ≤ later.tx.gasLimit) &&
      noneOvertaken maxGas gas txs

theorem noneOvertaken_of_append {c : BatchConfig} {current : List Transaction}
    (hmax : c.maxGasLimit.toNat < 2 ^ 64 - 1) {before rest : List PooledTransaction}
    {s : List PooledTransaction × List PooledTransaction}
    (hgas : gasOf (current ++ s.1.map .normal) ≤ c.maxGasLimit.toNat)
    (h : noneOvertaken c.maxGasLimit.toNat (gasOf (current ++ s.1.map .normal))
      (before ++ rest) = true) :
    noneOvertaken c.maxGasLimit.toNat (gasOf (current ++ (before.foldl (Selection.step
      fun accepted tx => canAddTransaction c (current ++ accepted.map .normal) (.normal tx))
        s).1.map .normal)) rest = true := by
  induction before generalizing s with
  | nil => exact h
  | cons tx before ih =>
    rw [List.cons_append, noneOvertaken] at h
    rw [List.foldl_cons, Selection.step]
    have hadd : canAddTransaction c (current ++ s.1.map .normal) (.normal tx) = true ↔ _ :=
      canAddTransaction_iff hmax hgas
    rw [gasOf_append, gasOf_singleton, Transaction.gasLimit] at hadd
    split_ifs with hfits
    · have hle := hadd.mp hfits
      rw [if_pos hle] at h
      have hsum : gasOf (current ++ (s.1 ++ [tx]).map .normal) =
          gasOf (current ++ s.1.map .normal) + tx.tx.gasLimit.toNat := by
        rw [List.map_append, List.map_singleton, ← List.append_assoc, gasOf_append,
          gasOf_singleton]
        rfl
      refine ih ?_ ?_
      · rw [hsum]
        exact hle
      · rw [hsum]
        exact h
    · rw [if_neg fun hle => hfits (hadd.mpr hle), Bool.and_eq_true] at h
      exact ih hgas h.2

theorem fits_of_noneOvertaken {maxGas gas : ℕ} {between after : List PooledTransaction}
    {x y : PooledTransaction} (h : noneOvertaken maxGas gas (y :: (between ++ x :: after)) = true)
    (hsender : x.tx.sender = y.tx.sender) (hgas : x.tx.gasLimit < y.tx.gasLimit) :
    gas + y.tx.gasLimit.toNat ≤ maxGas := by
  rw [noneOvertaken] at h
  split_ifs at h with hfits
  · exact hfits
  · have hx := List.all_eq_true.mp ((Bool.and_eq_true _ _).mp h).1 x (by simp)
    simp [hsender] at hx
    exact absurd hx (UInt64.not_le.mpr hgas)

/-- A batch that takes its normal transactions from this pool overtakes none. -/
def TakesInOrder (env : OrchestratorEnv) (accepted : List ForcedTransaction) (depth : ℕ)
    (pool : List PooledTransaction) : Prop :=
  noneOvertaken env.config.maxGasLimit.toNat (gasOf (accepted.map .forced))
      (pool.take (maxNormal env accepted depth)) = true ∧
    (env.policy.name = "BlobPacking" →
      (pool.map (·.tx.sender)).Nodup ∨
        pool.length ≤ maxNormal env accepted depth ∧
          (pool.map (·.estimatedEncodedBytes)).sum ≤ maxBlobBytes env accepted)

instance (accepted : List ForcedTransaction) (depth : ℕ) (pool : List PooledTransaction) :
    Decidable (TakesInOrder env accepted depth pool) :=
  inferInstanceAs (Decidable (_ ∧ _))

theorem accepted_before_deferred {accepted : List ForcedTransaction}
    {taken : List PooledTransaction} (hgas : WithinGas env.config (accepted.map .forced))
    (hnone : noneOvertaken env.config.maxGasLimit.toNat (gasOf (accepted.map .forced))
      taken = true) (hnonces : InNonceOrder taken) {x y : PooledTransaction}
    (hx : x ∈ (selectNormal env.config accepted taken).1)
    (hy : y ∈ (selectNormal env.config accepted taken).2)
    (hsender : x.tx.sender = y.tx.sender) : x.tx.nonce < y.tx.nonce := by
  rw [selectNormal_eq] at hx hy
  rcases Selection.before_or_passed hx hy with
    ⟨before, between, after, rfl⟩ | ⟨before, between, after, rfl, hrefused, haccepted⟩
  · have hxy := (List.pairwise_append.mp hnonces).2.1
    exact (List.pairwise_cons.mp hxy).1 y (by simp) hsender
  · have hmax : env.config.maxGasLimit.toNat < 2 ^ 64 - 1 := by
      by_contra hmax
      rw [canAddTransaction_of_max (by omega)] at hrefused
      cases hrefused
    have hfits := noneOvertaken_of_append (s := ([], [])) hmax (by simpa using hgas hmax)
      (by simpa using hnone)
    have hless := gasOf_le_of_sublist ((Selection.accepted_isPrefix (fun accepted' tx =>
      canAddTransaction env.config (accepted.map .forced ++ accepted'.map .normal) (.normal tx))
        before (y :: between)).sublist.map Transaction.normal)
    rw [← Bool.not_eq_true, canAddTransaction_iff hmax (withinGas_select hgas before hmax)]
      at hrefused
    rw [canAddTransaction_iff hmax (withinGas_select hgas _ hmax)] at haccepted
    simp only [gasOf_append, gasOf_singleton, Transaction.gasLimit] at hrefused haccepted
    refine absurd (fits_of_noneOvertaken hfits hsender ?_) ?_
    · rw [UInt64.lt_iff_toNat_lt]
      omega
    · rw [gasOf_append]
      exact hrefused

/-- Without blob packing, or where all fits in the blob, the front of the pool is taken. -/
theorem takePooled_eq_take {accepted : List ForcedTransaction} {depth : ℕ}
    {pool : List PooledTransaction} (htakes : TakesInOrder env accepted depth pool)
    (hrepeated : ¬(pool.map (·.tx.sender)).Nodup) :
    takePooled env accepted depth pool =
      (pool.take (maxNormal env accepted depth), pool.drop (maxNormal env accepted depth)) := by
  rw [takePooled]
  split_ifs with hblob
  · obtain ⟨hcount, hbytes⟩ := (htakes.2 hblob).resolve_left hrepeated
    rw [takeBlobPacked_all hcount hbytes, List.take_of_length_le hcount,
      List.drop_of_length_le hcount]
  · rfl

theorem taken_before_left {accepted : List ForcedTransaction} {depth : ℕ}
    {pool : List PooledTransaction} (hgas : WithinGas env.config (accepted.map .forced))
    (htakes : TakesInOrder env accepted depth pool) (hnonces : InNonceOrder pool)
    {x y : PooledTransaction}
    (hx : x ∈ (selectNormal env.config accepted (takePooled env accepted depth pool).1).1)
    (hy : y ∈ (selectNormal env.config accepted (takePooled env accepted depth pool).1).2 ++
      (takePooled env accepted depth pool).2)
    (hsender : x.tx.sender = y.tx.sender) : x.tx.nonce < y.tx.nonce := by
  by_cases hdistinct : (pool.map (·.tx.sender)).Nodup
  · have hperm := (taken_perm env accepted depth pool).map (·.tx.sender)
    have hnodup := hperm.nodup_iff.mpr hdistinct
    rw [List.map_append, List.nodup_append] at hnodup
    exact absurd hsender
      (hnodup.2.2 _ (List.mem_map_of_mem hx) _ (List.mem_map_of_mem hy))
  · rw [takePooled_eq_take htakes hdistinct] at hx hy
    have hsplit : InNonceOrder (pool.take (maxNormal env accepted depth) ++
        pool.drop (maxNormal env accepted depth)) := by
      rwa [List.take_append_drop]
    obtain ⟨htaken, -, hcross⟩ := List.pairwise_append.mp hsplit
    rcases List.mem_append.mp hy with hy | hy
    · exact accepted_before_deferred hgas htakes.1 htaken hx hy hsender
    · exact hcross x ((selectNormal_sublist ..).1.subset hx) y hy hsender

/-- The conditions on a step: what is taken overtakes none, what is put back has no later
one before it, and the timestamps that `FairBft` sorts by agree with the nonces. -/
def OrchestratorPhase.KeepsNonceOrder (env : OrchestratorEnv) (policy : SchedulingPolicyType)
    (pool : List PooledTransaction) : OrchestratorPhase → Prop
  | .takeNormal accepted depth => TakesInOrder env accepted depth pool
  | .requeueNormal _ _ (tx :: _) =>
    ∀ other ∈ pool, other.tx.sender = tx.tx.sender → other.tx.nonce < tx.tx.nonce
  | .sealing _ normal => policy = .fairBft → InTimeOrder normal
  | _ => True

instance (policy : SchedulingPolicyType) (pool : List PooledTransaction)
    (phase : OrchestratorPhase) : Decidable (phase.KeepsNonceOrder env policy pool) :=
  match phase with
  | .takeNormal accepted depth => inferInstanceAs (Decidable (TakesInOrder env accepted depth pool))
  | .requeueNormal _ _ (_ :: _) => inferInstanceAs (Decidable (∀ _ ∈ pool, _ → _))
  | .sealing _ normal => inferInstanceAs (Decidable (policy = .fairBft → InTimeOrder normal))
  | .requeueNormal _ _ [] | .loopTop | .checkSize | .checkBlob _ | .checkTimeout _
  | .triggered _ | .requeueForced _ _ | .countPool _ | .bookkeeping | .publishing
  | .panicked => isTrue trivial

def KeepsNonceOrder (env : OrchestratorEnv) (policy : SchedulingPolicyType) (o : Orchestrator) :
    OrchestratorEvent → Prop
  | .tick _ => o.phase.KeepsNonceOrder env policy o.pool
  | _ => True

instance (policy : SchedulingPolicyType) (o : Orchestrator) (event : OrchestratorEvent) :
    Decidable (KeepsNonceOrder env policy o event) :=
  match event with
  | .tick _ => inferInstanceAs (Decidable (o.phase.KeepsNonceOrder env policy o.pool))
  | .addForced _ | .addPooled _ => isTrue trivial

/-- What has been sealed, what is in hand and what is in the pool, in this order, are in
nonce order, and so is what has been refused after what was accepted with it. -/
structure Orchestrator.NonceOrdered (c : BatchConfig) (added : List PooledTransaction)
    (o : Orchestrator) : Prop where
  pool : InNonceOrder (o.sealedNormal ++ o.phase.normal ++ o.pool)
  refused : InNonceOrder (o.sealedNormal ++ o.phase.normal ++ o.phase.refused)
  gas : WithinGas c (o.phase.accepted.map .forced)
  known : ∀ tx ∈ o.sealedNormal ++ o.phase.normal ++ o.phase.refused ++ o.pool, tx ∈ added

theorem inNonceOrder_append {txs more : List PooledTransaction} :
    InNonceOrder (txs ++ more) ↔ InNonceOrder txs ∧ InNonceOrder more ∧
      ∀ x ∈ txs, ∀ y ∈ more, x.tx.sender = y.tx.sender → x.tx.nonce < y.tx.nonce :=
  List.pairwise_append

namespace Orchestrator.NonceOrdered

variable {c : BatchConfig} {added : List PooledTransaction} {o : Orchestrator}

theorem addPooled (h : o.NonceOrdered c added) {tx : PooledTransaction}
    (hadded : InNonceOrder (added ++ [tx])) :
    ({ o with pool := o.pool ++ [tx] } : Orchestrator).NonceOrdered c (added ++ [tx]) := by
  obtain ⟨-, -, hlast⟩ := inNonceOrder_append.mp hadded
  refine ⟨?_, h.refused, h.gas, ?_⟩
  · rw [← List.append_assoc, inNonceOrder_append]
    refine ⟨h.pool, by simp [InNonceOrder], fun x hx y hy => hlast x (h.known x ?_) y hy⟩
    simp only [List.mem_append] at hx ⊢
    tauto
  · intro other hother
    rw [← List.append_assoc] at hother
    rcases List.mem_append.mp hother with hother | hother
    · exact List.mem_append_left _ (h.known other hother)
    · exact List.mem_append_right _ hother

theorem move (h : o.NonceOrdered c added) {queue : List ForcedTransaction}
    {phase : OrchestratorPhase} (hnormal : phase.normal.Sublist o.phase.normal)
    (hrefused : phase.refused = []) (hgas : WithinGas c (phase.accepted.map .forced)) :
    ({ o with queue, phase } : Orchestrator).NonceOrdered c added := by
  have hsub : (o.sealedNormal ++ phase.normal ++ o.pool).Sublist
      (o.sealedNormal ++ o.phase.normal ++ o.pool) :=
    (hnormal.append_left _).append_right _
  have hpool := h.pool.sublist hsub
  refine ⟨hpool, ?_, hgas, ?_⟩
  · simp only [hrefused, List.append_nil]
    exact (inNonceOrder_append.mp hpool).1
  · simp only [hrefused, List.append_nil]
    intro tx htx
    refine h.known tx ?_
    have hmem := hsub.subset htx
    simp only [List.mem_append] at hmem ⊢
    tauto

theorem takeNormal (h : o.NonceOrdered env.config added) {accepted : List ForcedTransaction}
    {depth : ℕ} (hphase : o.phase = .takeNormal accepted depth)
    (htakes : TakesInOrder env accepted depth o.pool) :
    ({ o with
      pool := (takePooled env accepted depth o.pool).2
      phase := .requeueNormal accepted
        (selectNormal env.config accepted (takePooled env accepted depth o.pool).1).1
        (selectNormal env.config accepted (takePooled env accepted depth o.pool).1).2 } :
          Orchestrator).NonceOrdered env.config added := by
  obtain ⟨hpool, -, hgas, hknown⟩ := h
  simp only [hphase, OrchestratorPhase.normal, OrchestratorPhase.refused,
    OrchestratorPhase.accepted, List.append_nil] at hpool hgas hknown
  obtain ⟨hsealed, hpool, hcross⟩ := inNonceOrder_append.mp hpool
  have hleft := fun x hx y => taken_before_left hgas htakes hpool (x := x) (y := y) hx
  obtain ⟨htaken, hrest⟩ := takePooled_sublist env accepted depth o.pool
  obtain ⟨hnormal, hdeferred⟩ := selectNormal_sublist env.config accepted
    (takePooled env accepted depth o.pool).1
  have hperm := taken_perm env accepted depth o.pool
  generalize selectNormal env.config accepted (takePooled env accepted depth o.pool).1 =
    selected at hleft hnormal hdeferred hperm
  generalize takePooled env accepted depth o.pool = taken at *
  have hparts : ∀ part : List PooledTransaction, part.Sublist o.pool →
      (∀ x ∈ selected.1, ∀ y ∈ part, x.tx.sender = y.tx.sender → x.tx.nonce < y.tx.nonce) →
      InNonceOrder (o.sealedNormal ++ selected.1 ++ part) := by
    intro part hpart hafter
    rw [List.append_assoc, inNonceOrder_append, inNonceOrder_append]
    refine ⟨hsealed, ⟨hpool.sublist (hnormal.trans htaken), hpool.sublist hpart, hafter⟩, ?_⟩
    intro x hx y hy
    refine hcross x hx y ?_
    rcases List.mem_append.mp hy with hy | hy
    · exact (hnormal.trans htaken).subset hy
    · exact hpart.subset hy
  refine ⟨hparts _ hrest ?_, hparts _ (hdeferred.trans htaken) ?_, hgas, ?_⟩
  · exact fun x hx y hy => hleft x hx y (List.mem_append_right _ hy)
  · exact fun x hx y hy => hleft x hx y (List.mem_append_left _ hy)
  · intro tx htx
    refine hknown tx ?_
    simp only [OrchestratorPhase.normal, OrchestratorPhase.refused, List.append_assoc] at htx
    rw [List.mem_append, hperm.mem_iff] at htx
    exact List.mem_append.mpr htx

theorem putBackNormal (h : o.NonceOrdered c added) {accepted : List ForcedTransaction}
    {normal deferred : List PooledTransaction} {tx : PooledTransaction}
    (hphase : o.phase = .requeueNormal accepted normal (tx :: deferred))
    (hlast : ∀ other ∈ o.pool, other.tx.sender = tx.tx.sender →
      other.tx.nonce < tx.tx.nonce) :
    ({ o with
      pool := o.pool ++ [tx]
      phase := .requeueNormal accepted normal deferred } : Orchestrator).NonceOrdered c
        added := by
  obtain ⟨hpool, hrefused, hgas, hknown⟩ := h
  rw [hphase] at hpool hrefused hgas hknown
  have hbefore := (inNonceOrder_append.mp hrefused).2.2
  refine ⟨?_, ?_, hgas, ?_⟩
  · rw [← List.append_assoc, inNonceOrder_append]
    refine ⟨hpool, by simp [InNonceOrder], fun x hx y hy hsender => ?_⟩
    obtain rfl := List.mem_singleton.mp hy
    rcases List.mem_append.mp hx with hx | hx
    · exact hbefore x hx y List.mem_cons_self hsender
    · exact hlast x hx hsender
  · exact hrefused.sublist ((List.sublist_cons_self tx deferred).append_left _)
  · intro other hother
    refine hknown other ?_
    simp only [OrchestratorPhase.normal, OrchestratorPhase.refused, Orchestrator.sealedNormal,
      List.mem_append, List.mem_cons, List.not_mem_nil, or_false] at hother ⊢
    tauto

theorem seals (h : o.NonceOrdered c added) {accepted : List ForcedTransaction}
    {normal ordered : List PooledTransaction} (hphase : o.phase = .sealing accepted normal)
    (hperm : ordered.Perm normal)
    (hordered : ∀ sender, ofSender sender ordered = ofSender sender normal)
    (nextBatchId : UInt64) (t : Tick) :
    ({ o with
      nextBatchId
      sealed := o.sealed ++ [o.nextBatch accepted ordered t]
      phase := .bookkeeping } : Orchestrator).NonceOrdered c added := by
  obtain ⟨hpool, -, -, hknown⟩ := h
  rw [hphase] at hpool hknown
  have hsealed : ({ o with
      nextBatchId
      sealed := o.sealed ++ [o.nextBatch accepted ordered t]
      phase := .bookkeeping } : Orchestrator).sealedNormal = o.sealedNormal ++ ordered := by
    simp [Orchestrator.sealedNormal, Orchestrator.nextBatch, normal_schedule]
  have hpool' : InNonceOrder (o.sealedNormal ++ ordered ++ o.pool) := by
    rw [inNonceOrder_iff] at hpool ⊢
    intro sender
    simpa [ofSender, OrchestratorPhase.normal, show ordered.filter _ = _ from hordered sender]
      using hpool sender
  refine ⟨?_, ?_, ?_, ?_⟩
  · rw [hsealed]
    simpa [OrchestratorPhase.normal] using hpool'
  · rw [hsealed]
    simpa [OrchestratorPhase.normal, OrchestratorPhase.refused] using
      (inNonceOrder_append.mp hpool').1
  · exact fun _ => Nat.zero_le _
  · intro tx htx
    refine hknown tx ?_
    rw [hsealed] at htx
    simpa [OrchestratorPhase.normal, OrchestratorPhase.refused, hperm.mem_iff] using htx

end Orchestrator.NonceOrdered

variable {policy : SchedulingPolicyType} {hash : List PooledTransaction → Executor.Address → ℕ}

theorem TickEffect.nonceOrdered {o o' : Orchestrator} {t : Tick}
    {added : List PooledTransaction} (heffect : TickEffect env o t o')
    (hpolicy : env.policy = createPolicy hash policy)
    (hok : KeepsNonceOrder env policy o (.tick t)) (h : o.NonceOrdered env.config added) :
    o'.NonceOrdered env.config added := by
  have hgas : ∀ {phase phase' : OrchestratorPhase}, o.phase = phase →
      phase'.accepted = phase.accepted →
      WithinGas env.config (phase'.accepted.map .forced) := by
    rintro _ phase' rfl haccepted
    rw [haccepted]
    exact h.gas
  have hnone : WithinGas env.config [] := fun _ => Nat.zero_le _
  replace hok : o.phase.KeepsNonceOrder env policy o.pool := hok
  cases heffect with
  | watch hold hnew =>
    obtain ⟨hnormal, hrefused⟩ := OrchestratorPhase.normal_of_watching hnew
    refine h.move (by rw [hnormal]; exact List.nil_sublist _) hrefused ?_
    rw [(OrchestratorPhase.of_watching hnew).1]
    exact hnone
  | takeForced hphase =>
    exact h.move (List.nil_sublist _) rfl (withinGas_select hnone o.queue)
  | putBackForced hphase | forcedDone hphase | counted hphase =>
    exact h.move (List.nil_sublist _) rfl (hgas hphase rfl)
  | takeNormal hphase =>
    rw [hphase] at hok
    exact h.takeNormal hphase hok
  | putBackNormal hphase =>
    rw [hphase] at hok
    exact h.putBackNormal hphase hok
  | nothing hphase | panics | drain hphase => exact h.move (List.nil_sublist _) rfl hnone
  | normalDone hphase =>
    exact h.move (by rw [hphase]; exact .refl _) rfl (hgas hphase rfl)
  | @seals accepted normal ordered hphase horder =>
    rw [hphase] at hok
    rw [hpolicy] at horder
    have hnonces : InNonceOrder normal := by
      have hpool := h.pool
      rw [hphase, inNonceOrder_append, inNonceOrder_append] at hpool
      exact hpool.1.2.1
    exact h.seals hphase (createPolicy_perm horder)
      (createPolicy_ofSender horder hnonces hok) _ t

theorem nonceOrdered_run {o o' : Orchestrator} {events : List OrchestratorEvent}
    {added : List PooledTransaction} (hpolicy : env.policy = createPolicy hash policy)
    (hr : Run (OrchestratorStep env) o events o')
    (hok : Along (OrchestratorStep env) (KeepsNonceOrder env policy) o events)
    (hadded : InNonceOrder (added ++ pooledAdded events))
    (h : o.NonceOrdered env.config added) :
    o'.NonceOrdered env.config (added ++ pooledAdded events) := by
  induction hr generalizing added with
  | nil o => simpa [pooledAdded] using h
  | @cons o event o₁ events o' hstep _ ih =>
    rw [pooledAdded_cons, ← List.append_assoc] at hadded ⊢
    refine ih (hok.2 o₁ hstep) hadded ?_
    cases event with
    | addForced tx =>
      rw [← Option.some.inj hstep]
      simpa [pooledAdded] using ⟨h.pool, h.refused, h.gas, h.known⟩
    | addPooled tx =>
      rw [← Option.some.inj hstep]
      exact h.addPooled (inNonceOrder_append.mp hadded).1
    | tick t =>
      simpa [pooledAdded] using (tick_effect hstep).nonceOrdered hpolicy hok.1 h

/-- With each of the policies and every configuration: if each sender's transactions enter
the pool in nonce order and every step meets its condition, the sealed batches one after
another have each sender's transactions in nonce order. -/
theorem sealed_inNonceOrder (env : OrchestratorEnv) (policy : SchedulingPolicyType)
    (hash : List PooledTransaction → Executor.Address → ℕ)
    (hpolicy : env.policy = createPolicy hash policy) (nextBatchId : UInt64)
    (events : List OrchestratorEvent) (o : Orchestrator)
    (hr : Run (OrchestratorStep env) (Orchestrator.start nextBatchId) events o)
    (hadded : InNonceOrder (pooledAdded events))
    (hok : Along (OrchestratorStep env) (KeepsNonceOrder env policy)
      (Orchestrator.start nextBatchId) events) :
    InNonceOrder o.sealedNormal := by
  have hstart : (Orchestrator.start nextBatchId).NonceOrdered env.config [] :=
    ⟨.nil, .nil, fun _ => Nat.zero_le _, fun _ htx => htx⟩
  have hend := nonceOrdered_run hpolicy hr hok hadded hstart
  exact (inNonceOrder_append.mp (inNonceOrder_append.mp hend.pool).1).1

/-! Payments with a gas limit of 60 or less, in batches with one of 100. -/

def payment (sender : UInt8) (nonce gasLimit : UInt64) (gasPrice : U256) : PooledTransaction :=
  ⟨⟨Vector.replicate 20 sender, Vector.replicate 20 9, 1, nonce, gasPrice, gasLimit, ⟨0, 0, 27⟩,
    0, none⟩, 0, 0, 0⟩

def scheduledBatches (policy : SchedulingPolicyType) : OrchestratorEnv :=
  { smallBatches with policy := createPolicy (fun _ _ => 0) policy }

def timedOut (payments : List PooledTransaction) (steps : ℕ) : List OrchestratorEvent :=
  payments.map .addPooled ++ List.replicate steps (.tick ⟨1000, 0⟩)

theorem inNonceOrder_feePriority :
    ∃ o, Run (OrchestratorStep (scheduledBatches .feePriority)) (Orchestrator.start 1)
        (timedOut [payment 1 0 30 1, payment 1 1 30 9, payment 2 0 30 5] 11) o ∧
      o.sealedNormal = [payment 2 0 30 5, payment 1 0 30 1, payment 1 1 30 9] ∧
      InNonceOrder o.sealedNormal := by
  obtain ⟨o, hr, hsealed⟩ := exists_run_of_foldlM
    (Orchestrator.step (scheduledBatches .feePriority)) (Orchestrator.start 1)
    (timedOut [payment 1 0 30 1, payment 1 1 30 9, payment 2 0 30 5] 11)
    Orchestrator.sealedNormal
    (b := [payment 2 0 30 5, payment 1 0 30 1, payment 1 1 30 9]) (by decide +kernel)
  have hok : Along (OrchestratorStep (scheduledBatches .feePriority))
      (KeepsNonceOrder (scheduledBatches .feePriority) .feePriority) (Orchestrator.start 1)
      (timedOut [payment 1 0 30 1, payment 1 1 30 9, payment 2 0 30 5] 11) :=
    Along.of_check (f := Orchestrator.step (scheduledBatches .feePriority)) (by decide +kernel)
  exact ⟨o, hr, hsealed, sealed_inNonceOrder (scheduledBatches .feePriority) .feePriority
    (fun _ _ => 0) rfl 1 _ o hr (by decide +kernel) hok⟩

/-- The second of three payments exceeds the gas limit after the first. The third is small
enough and is sealed with the first, before the second. -/
theorem overtaken_secondPayment :
    ∃ o, Run (OrchestratorStep (scheduledBatches .fcfs)) (Orchestrator.start 1)
        (timedOut [payment 1 0 60 1, payment 1 1 60 1, payment 1 2 30 1] 23) o ∧
      InNonceOrder
        (pooledAdded (timedOut [payment 1 0 60 1, payment 1 1 60 1, payment 1 2 30 1] 23)) ∧
      o.sealed.map Batch.normal = [[payment 1 0 60 1, payment 1 2 30 1], [payment 1 1 60 1]] ∧
      ¬InNonceOrder o.sealedNormal := by
  obtain ⟨o, hr, hsealed⟩ := exists_run_of_foldlM (Orchestrator.step (scheduledBatches .fcfs))
    (Orchestrator.start 1)
    (timedOut [payment 1 0 60 1, payment 1 1 60 1, payment 1 2 30 1] 23)
    (fun o => o.sealed.map Batch.normal)
    (b := [[payment 1 0 60 1, payment 1 2 30 1], [payment 1 1 60 1]]) (by decide +kernel)
  refine ⟨o, hr, by decide +kernel, hsealed, ?_⟩
  rw [Orchestrator.sealedNormal, List.flatMap_def, hsealed]
  decide +kernel

end RollupX.Sequencer
