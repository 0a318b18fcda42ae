import Mathlib.Algebra.Order.BigOperators.Group.List
import RollupX.Verification.Sequencer.ForcedQueue

/-! The order of forced transactions. `produce_batch` accepts later transactions past one that
exceeds the gas limit, and puts that one back behind whatever has arrived since. -/

namespace RollupX.Sequencer

open Machine

variable {env : OrchestratorEnv}

def gasOf (txs : List Transaction) : ℕ :=
  (txs.map fun tx => tx.gasLimit.toNat).sum

theorem gasOf_append (txs more : List Transaction) :
    gasOf (txs ++ more) = gasOf txs + gasOf more := by
  rw [gasOf, List.map_append, List.sum_append, gasOf, gasOf]

theorem gasOf_singleton (tx : Transaction) : gasOf [tx] = tx.gasLimit.toNat := by
  simp [gasOf]

theorem gasOf_le_of_sublist {txs more : List Transaction} (h : txs.Sublist more) :
    gasOf txs ≤ gasOf more :=
  (h.map _).sum_le_sum fun _ _ => Nat.zero_le _

theorem toNat_foldl_gas {txs : List Transaction} {gas : UInt64}
    (h : gas.toNat + gasOf txs < 2 ^ 64) :
    (txs.foldl (fun gas tx => gas + tx.gasLimit) gas).toNat = gas.toNat + gasOf txs := by
  induction txs generalizing gas with
  | nil => rfl
  | cons tx txs ih =>
    have hcons : gasOf (tx :: txs) = tx.gasLimit.toNat + gasOf txs := by simp [gasOf]
    have hadd : (gas + tx.gasLimit).toNat = gas.toNat + tx.gasLimit.toNat := by
      rw [UInt64.toNat_add, Nat.mod_eq_of_lt (by omega)]
    rw [List.foldl_cons, ih (by omega), hadd, hcons, Nat.add_assoc]

/-- The limit `u64::MAX` refuses nothing, since the last sum saturates. -/
theorem canAddTransaction_of_max {c : BatchConfig} {current : List Transaction}
    {new : Transaction} (h : 2 ^ 64 - 1 ≤ c.maxGasLimit.toNat) :
    canAddTransaction c current new = true := by
  rw [canAddTransaction, decide_eq_true_eq, UInt64.le_iff_toNat_le, Bytes.toNat_saturatingAdd]
  omega

theorem canAddTransaction_iff {c : BatchConfig} {current : List Transaction}
    {new : Transaction} (hmax : c.maxGasLimit.toNat < 2 ^ 64 - 1)
    (h : gasOf current ≤ c.maxGasLimit.toNat) :
    canAddTransaction c current new = true ↔
      gasOf (current ++ [new]) ≤ c.maxGasLimit.toNat := by
  have hfits : (0 : UInt64).toNat + gasOf current < 2 ^ 64 := by
    rw [UInt64.toNat_zero]
    omega
  have hsum := toNat_foldl_gas hfits
  rw [UInt64.toNat_zero, Nat.zero_add] at hsum
  rw [canAddTransaction, decide_eq_true_eq, UInt64.le_iff_toNat_le, Bytes.toNat_saturatingAdd,
    hsum, gasOf_append, gasOf_singleton]
  omega

def WithinGas (c : BatchConfig) (txs : List Transaction) : Prop :=
  c.maxGasLimit.toNat < 2 ^ 64 - 1 → gasOf txs ≤ c.maxGasLimit.toNat

theorem withinGas_select {α : Type} {c : BatchConfig} {current : List Transaction}
    {f : α → Transaction} (hcurrent : WithinGas c current) (xs : List α) :
    WithinGas c (current ++ (Selection.select (fun accepted x =>
      canAddTransaction c (current ++ accepted.map f) (f x)) xs).1.map f) := by
  refine Selection.foldl_step_invariant
    (I := fun _ s => WithinGas c (current ++ s.1.map f)) ?_ ?_ ?_ xs
  · intro seen accepted deferred x h hadd hmax
    rw [List.map_append, List.map_singleton, ← List.append_assoc]
    exact (canAddTransaction_iff hmax (h hmax)).mp hadd
  · intro seen accepted deferred x h _
    exact h
  · simpa using hcurrent

def ForcedTransaction.fits (c : BatchConfig) (tx : ForcedTransaction) : Bool :=
  tx.gasLimit ≤ c.maxGasLimit

theorem fits_of_canAddTransaction {c : BatchConfig} {current : List Transaction}
    {tx : ForcedTransaction} (h : canAddTransaction c current (.forced tx) = true) :
    tx.fits c = true := by
  have hlt := tx.gasLimit.toNat_lt
  simp only [canAddTransaction, Transaction.gasLimit, decide_eq_true_eq, UInt64.le_iff_toNat_le,
    Bytes.toNat_saturatingAdd] at h
  rw [ForcedTransaction.fits, decide_eq_true_eq, UInt64.le_iff_toNat_le]
  omega

def OrchestratorPhase.accepted : OrchestratorPhase → List ForcedTransaction
  | .requeueForced accepted _ => accepted
  | .countPool accepted => accepted
  | .takeNormal accepted _ => accepted
  | .requeueNormal accepted _ _ => accepted
  | .sealing accepted _ => accepted
  | _ => []

def OrchestratorPhase.deferred : OrchestratorPhase → List ForcedTransaction
  | .requeueForced _ deferred => deferred
  | _ => []

/-- The queue is dropped before it is taken from again, or never taken from again. -/
def OrchestratorPhase.dropsQueue : OrchestratorPhase → Bool
  | .bookkeeping => true
  | .panicked => true
  | phase => phase.accepted ≠ []

theorem OrchestratorPhase.of_watching {phase : OrchestratorPhase} (h : phase.watching = true) :
    phase.accepted = [] ∧ phase.deferred = [] ∧ phase.dropsQueue = false := by
  cases phase <;> first | exact ⟨rfl, rfl, rfl⟩ | cases h

namespace Orchestrator.InOrder

variable {c : BatchConfig} {added : List ForcedTransaction} {o : Orchestrator}

end Orchestrator.InOrder

theorem sublist_order {α : Type*} {xs before between later : List α} {a b : α}
    (hsub : xs.Sublist (before ++ a :: between ++ b :: later))
    (hnodup : (before ++ a :: between ++ b :: later).Nodup) (ha : a ∈ xs) (hb : b ∈ xs) :
    ∃ us vs ws, xs = us ++ a :: vs ++ b :: ws := by
  obtain ⟨left, right, rfl, hleft, hright⟩ := List.sublist_append_iff.mp hsub
  obtain ⟨-, hlater, hapart⟩ := List.nodup_append.mp hnodup
  have ha' : a ∈ left := by
    rcases List.mem_append.mp ha with h | h
    · exact h
    · exact absurd rfl (hapart a (by simp) a (hright.subset h))
  have hb' : b ∈ right := by
    rcases List.mem_append.mp hb with h | h
    · exact absurd rfl (hapart b (hleft.subset h) b List.mem_cons_self)
    · exact h
  obtain ⟨us, vs, rfl⟩ := List.append_of_mem ha'
  cases hright with
  | cons _ h => exact absurd (h.subset hb') (List.nodup_cons.mp hlater).1
  | cons_cons _ h => exact ⟨us, vs, _, rfl⟩

/-- Of the transactions that fit in a batch of their own, the first ones are within the gas limit
together, and each of the others exceeds it on top of these. The limit `u64::MAX` refuses
nothing. -/
def AcceptsFront (c : BatchConfig) (queue : List ForcedTransaction) : Prop :=
  2 ^ 64 - 1 ≤ c.maxGasLimit.toNat ∨
    ∃ n ≤ (queue.filter (·.fits c)).length,
      gasOf (((queue.filter (·.fits c)).take n).map .forced) ≤ c.maxGasLimit.toNat ∧
      ∀ tx ∈ (queue.filter (·.fits c)).drop n, c.maxGasLimit.toNat <
        gasOf (((queue.filter (·.fits c)).take n).map .forced) + tx.gasLimit.toNat

instance (c : BatchConfig) (queue : List ForcedTransaction) : Decidable (AcceptsFront c queue) :=
  inferInstanceAs (Decidable (_ ∨ _))

theorem selectForced_of_acceptsFront {c : BatchConfig} {queue : List ForcedTransaction}
    (h : AcceptsFront c queue) :
    (selectForced c queue).1 ++ (selectForced c queue).2.filter (·.fits c) =
      queue.filter (·.fits c) := by
  rw [selectForced_eq]
  by_cases hmax : 2 ^ 64 - 1 ≤ c.maxGasLimit.toNat
  · have hall : ∀ tx : ForcedTransaction, tx.fits c = true :=
      fun tx => fits_of_canAddTransaction
        (canAddTransaction_of_max hmax : canAddTransaction c [] (.forced tx) = true)
    rw [Selection.select_eq_all fun _ _ _ _ => canAddTransaction_of_max hmax,
      List.filter_nil, List.append_nil, List.filter_eq_self.mpr fun tx _ => hall tx]
  · obtain ⟨n, -, hfront, hback⟩ := h.resolve_left hmax
    have hlimit : c.maxGasLimit.toNat < 2 ^ 64 - 1 := by omega
    have hpass : ∀ (ys : List ForcedTransaction) (tx : ForcedTransaction),
        ys ++ [tx] <+: queue.filter (·.fits c) → ys.length < n →
        canAddTransaction c (ys.map .forced) (.forced tx) = true := by
      intro ys tx hys hlt
      have hbegins : ys ++ [tx] <+: (queue.filter (·.fits c)).take n := by
        rw [List.prefix_take_iff, List.length_append]
        exact ⟨hys, hlt⟩
      have hle := gasOf_le_of_sublist (hbegins.sublist.map Transaction.forced)
      rw [List.map_append, List.map_singleton] at hle
      have hsum := gasOf_append (ys.map .forced) [.forced tx]
      rw [canAddTransaction_iff hlimit (by omega)]
      omega
    have hfail : ∀ (ys : List ForcedTransaction) (tx : ForcedTransaction),
        ys ++ [tx] <+: queue.filter (·.fits c) → n ≤ ys.length →
        canAddTransaction c (((queue.filter (·.fits c)).take n).map .forced) (.forced tx) =
          false := by
      intro ys tx hys hle
      obtain ⟨rest, hrest⟩ := hys
      have hmem : tx ∈ (queue.filter (·.fits c)).drop n := by
        rw [← hrest, List.append_assoc, List.drop_append_of_le_length hle]
        simp
      rw [← Bool.not_eq_true, canAddTransaction_iff hlimit hfront, gasOf_append, gasOf_singleton]
      exact Nat.not_le.mpr (hback tx hmem)
    obtain ⟨haccepted, hdeferred⟩ := Selection.select_eq_take_drop
      (p := fun accepted tx => canAddTransaction c (accepted.map .forced) (.forced tx))
      (fun _ _ => fits_of_canAddTransaction) hpass hfail List.prefix_rfl
    rw [haccepted, hdeferred, List.take_append_drop]

def OrchestratorPhase.takesQueue : OrchestratorPhase → Bool
  | .triggered _ => true
  | _ => false

/-- Where the queue is taken, those that fit are accepted from its front. Where a transaction that
fits is added, no deferred one that fits has yet to be put back. -/
def KeepsLine (c : BatchConfig) (o : Orchestrator) : CallEvent → Prop
  | .step (.addForced tx) => tx.fits c = true → ∀ d ∈ o.phase.deferred, d.fits c = false
  | .step (.tick _) => o.phase.takesQueue = true → AcceptsFront c o.queue
  | _ => True

instance (c : BatchConfig) (o : Orchestrator) (event : CallEvent) :
    Decidable (KeepsLine c o event) :=
  match event with
  | .call _ => inferInstanceAs (Decidable True)
  | .step (.addPooled _) => inferInstanceAs (Decidable True)
  | .step (.addForced _) => inferInstanceAs (Decidable (_ → _))
  | .step (.tick _) => inferInstanceAs (Decidable (_ → _))

def callsAdded (events : List CallEvent) : List ForcedTransaction :=
  events.filterMap fun event =>
    match event with
    | .step (.addForced tx) => some tx
    | _ => none

/-- What was sealed, what is accepted, and of those that fit what waits in the queue and what is
to be put back behind it: in this order as they were added. -/
def Orchestrator.InLine (c : BatchConfig) (added : List ForcedTransaction) (o : Orchestrator) :
    Prop :=
  (o.sealedForced ++ o.phase.accepted ++
    (o.queue ++ o.phase.deferred).filter (·.fits c)).Sublist added

namespace Orchestrator.InLine

variable {c : BatchConfig} {added : List ForcedTransaction} {o o' : Orchestrator}

theorem of_eq (h : o.InLine c added)
    (htaken : o'.sealedForced ++ o'.phase.accepted = o.sealedForced ++ o.phase.accepted)
    (hwaiting : o'.queue ++ o'.phase.deferred = o.queue ++ o.phase.deferred) :
    o'.InLine c added := by
  unfold InLine
  rw [htaken, hwaiting]
  exact h

theorem addForced (h : o.InLine c added) {tx : ForcedTransaction}
    (hok : tx.fits c = true → ∀ d ∈ o.phase.deferred, d.fits c = false) :
    ({ o with queue := o.queue ++ [tx] } : Orchestrator).InLine c (added ++ [tx]) := by
  unfold InLine at *
  by_cases hfits : tx.fits c = true
  · have hnone : o.phase.deferred.filter (·.fits c) = [] := by
      rw [List.filter_eq_nil_iff]
      intro d hd
      rw [hok hfits d hd]
      simp
    simp only [List.filter_append, hnone, List.append_nil] at h ⊢
    rw [← List.append_assoc]
    exact h.append (List.filter_sublist ..)
  · simp only [List.filter_append, List.filter_singleton, hfits, cond_false,
      List.append_nil] at h ⊢
    exact h.trans (List.sublist_append_left _ _)

theorem takeForced (h : o.InLine c added) (hok : AcceptsFront c o.queue) {reason : TriggerReason}
    (hphase : o.phase = .triggered reason) :
    ({ o with
      queue := []
      phase := .requeueForced (selectForced c o.queue).1 (selectForced c o.queue).2 } :
        Orchestrator).InLine c added := by
  unfold InLine at *
  simp only [hphase, OrchestratorPhase.accepted, OrchestratorPhase.deferred, List.append_nil]
    at h ⊢
  rw [List.append_assoc, List.nil_append, selectForced_of_acceptsFront hok]
  exact h

theorem tick {t : Tick} (h : o.InLine env.config added) (heffect : TickEffect env o t o')
    (hproducing : o.phase.producing = true)
    (hok : o.phase.takesQueue = true → AcceptsFront env.config o.queue) :
    o'.InLine env.config added := by
  cases heffect with
  | watch hold hnew =>
    obtain ⟨haccepted, hdeferred, -⟩ := OrchestratorPhase.of_watching hold
    obtain ⟨haccepted', hdeferred', -⟩ := OrchestratorPhase.of_watching hnew
    exact h.of_eq (by simp [Orchestrator.sealedForced, haccepted, haccepted'])
      (by simp [hdeferred, hdeferred'])
  | takeForced hphase => exact h.takeForced (hok (by rw [hphase]; rfl)) hphase
  | putBackForced hphase =>
    exact h.of_eq (by rw [hphase]; rfl)
      (by simp [hphase, OrchestratorPhase.deferred])
  | forcedDone hphase | counted hphase | takeNormal hphase | putBackNormal hphase
  | nothing hphase | normalDone hphase =>
    exact h.of_eq (by rw [hphase]; rfl) (by rw [hphase]; rfl)
  | seals hphase =>
    refine h.of_eq ?_ (by rw [hphase]; rfl)
    simp [Orchestrator.sealedForced, Orchestrator.nextBatch, forced_schedule, hphase,
      OrchestratorPhase.accepted]
  | panics hphase =>
    unfold InLine at *
    simp only [hphase, OrchestratorPhase.accepted, OrchestratorPhase.deferred] at h ⊢
    exact (((List.nil_sublist _).append_left _).append (List.Sublist.refl _)).trans h
  | drain hphase =>
    rw [hphase] at hproducing
    cases hproducing

end Orchestrator.InLine

theorem ProduceStep.inLine {o o' : Orchestrator} {event : CallEvent}
    {added : List ForcedTransaction} (hstep : ProduceStep env o event o')
    (hok : KeepsLine env.config o event) (h : o.InLine env.config added) :
    o'.InLine env.config (added ++ callsAdded [event]) := by
  unfold ProduceStep Orchestrator.callStep at hstep
  cases event with
  | call reason =>
    simp only at hstep
    split_ifs at hstep with hbusy
    cases hstep
    have hidle : o.phase.accepted = [] ∧ o.phase.deferred = [] := by
      cases hphase : o.phase <;> simp_all [OrchestratorPhase.producing] <;> exact ⟨rfl, rfl⟩
    simp only [callsAdded, List.filterMap_cons, List.filterMap_nil, List.append_nil]
    exact h.of_eq (by rw [hidle.1]; rfl) (by rw [hidle.2]; rfl)
  | step event =>
    cases event with
    | addForced tx =>
      rw [← Option.some.inj hstep]
      exact h.addForced hok
    | addPooled tx =>
      rw [← Option.some.inj hstep, callsAdded, List.filterMap_cons, List.filterMap_nil,
        List.append_nil]
      exact h.of_eq rfl rfl
    | tick t =>
      simp only at hstep
      split_ifs at hstep with hproducing
      simpa [callsAdded] using h.tick (tick_effect hstep) hproducing hok

theorem inLine_run {o o' : Orchestrator} {events : List CallEvent}
    {added : List ForcedTransaction} (hr : Run (ProduceStep env) o events o')
    (hok : Along (ProduceStep env) (KeepsLine env.config) o events)
    (h : o.InLine env.config added) : o'.InLine env.config (added ++ callsAdded events) := by
  induction hr generalizing added with
  | nil o => simpa [callsAdded] using h
  | @cons o event o₁ events o' hstep _ ih =>
    have hfirst : callsAdded (event :: events) = callsAdded [event] ++ callsAdded events := by
      rw [callsAdded, ← List.singleton_append, List.filterMap_append]
      rfl
    rw [hfirst, ← List.append_assoc]
    exact ih (hok.2 o₁ hstep) (hstep.inLine hok.1 h)

/-- In every interleaving of calls of `produce_batch` with additions to the queue whose steps all
keep the line, the forced transactions in the sealed batches are in the order in which they were
added. -/
theorem calls_in_order (env : OrchestratorEnv) (nextBatchId : UInt64) (events : List CallEvent)
    (o : Orchestrator) (hr : Run (ProduceStep env) (Orchestrator.start nextBatchId) events o)
    (hok : Along (ProduceStep env) (KeepsLine env.config) (Orchestrator.start nextBatchId) events) :
    o.sealedForced.Sublist (callsAdded events) ∧
      ∀ before a between b later,
        callsAdded events = before ++ a :: between ++ b :: later →
        (callsAdded events).Nodup → a ∈ o.sealedForced → b ∈ o.sealedForced →
          ∃ us vs ws, o.sealedForced = us ++ a :: vs ++ b :: ws := by
  have hstart : (Orchestrator.start nextBatchId).InLine env.config [] := .slnil
  have hsub : o.sealedForced.Sublist (callsAdded events) :=
    ((List.sublist_append_left _ _).trans (List.sublist_append_left _ _)).trans
      (inLine_run hr hok hstart)
  refine ⟨hsub, ?_⟩
  intro before a between b later hadded hnodup ha hb
  rw [hadded] at hsub hnodup
  exact sublist_order hsub hnodup ha hb

def callsAfter (deposits : List ForcedTransaction) (steps : List ℕ) : List CallEvent :=
  deposits.map (fun tx => .step (.addForced tx)) ++
    steps.flatMap fun n => .call .forcedTransactions :: List.replicate n (.step (.tick ⟨0, 0⟩))

theorem calls_in_order_threeDeposits :
    ∃ o, Run (ProduceStep smallBatches) (Orchestrator.start 1)
        (callsAfter [deposit 0, deposit 1, deposit 2] [8, 7, 6]) o ∧
      o.sealed.map Batch.forced = [[deposit 0], [deposit 1], [deposit 2]] ∧
      o.sealedForced.Sublist (callsAdded
        (callsAfter [deposit 0, deposit 1, deposit 2] [8, 7, 6])) := by
  obtain ⟨o, hr, hsealed⟩ := exists_run_of_foldlM (Orchestrator.callStep smallBatches)
    (Orchestrator.start 1) (callsAfter [deposit 0, deposit 1, deposit 2] [8, 7, 6])
    (fun o => o.sealed.map Batch.forced) (b := [[deposit 0], [deposit 1], [deposit 2]])
    (by decide +kernel)
  have hok : Along (ProduceStep smallBatches) (KeepsLine smallBatches.config) (Orchestrator.start 1)
      (callsAfter [deposit 0, deposit 1, deposit 2] [8, 7, 6]) :=
    Along.of_check (f := Orchestrator.callStep smallBatches) (by decide +kernel)
  exact ⟨o, hr, hsealed, (calls_in_order smallBatches 1 _ o hr hok).1⟩

/-- The third deposit is small enough to be sealed with the first, before the second. -/
theorem calls_out_of_order :
    ∃ o, Run (ProduceStep smallBatches) (Orchestrator.start 1)
        (callsAfter [deposit 0, deposit 1, { deposit 2 with gasLimit := 30 }] [7, 6]) o ∧
      o.sealed.map Batch.forced =
        [[deposit 0, { deposit 2 with gasLimit := 30 }], [deposit 1]] ∧
      ¬o.sealedForced.Sublist (callsAdded
        (callsAfter [deposit 0, deposit 1, { deposit 2 with gasLimit := 30 }] [7, 6])) := by
  obtain ⟨o, hr, hsealed⟩ := exists_run_of_foldlM (Orchestrator.callStep smallBatches)
    (Orchestrator.start 1)
    (callsAfter [deposit 0, deposit 1, { deposit 2 with gasLimit := 30 }] [7, 6])
    (fun o => o.sealed.map Batch.forced)
    (b := [[deposit 0, { deposit 2 with gasLimit := 30 }], [deposit 1]]) (by decide +kernel)
  refine ⟨o, hr, hsealed, ?_⟩
  rw [Orchestrator.sealedForced, List.flatMap_def, hsealed]
  decide +kernel

end RollupX.Sequencer
