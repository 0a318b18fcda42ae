import RollupX.Verification.Contracts.Calls

/-! Forced transactions, their deadlines, and what a frozen bridge still does. -/

namespace RollupX.Contracts

open Machine Fallible

variable {σ σ' : Bridge} {block : Block} {msg : Msg}

def BridgeCall.isFinalizeOptimisticRoot : BridgeCall → Bool
  | .finalizeOptimisticRoot => true
  | _ => false

def BridgeCall.isUnfreeze : BridgeCall → Bool
  | .unfreeze => true
  | _ => false

/-- A finalisation that passes its checks and changes the latest root. -/
structure InstallsRoot (σ : Bridge) (block : Block) (msg : Msg) (call : BridgeCall) : Prop where
  call : call.isFinalizeOptimisticRoot = true
  value : msg.value = 0
  mode : σ.optimisticMode = true
  pending : σ.pendingStateRoot ≠ 0
  elapsed : σ.pendingTimestamp.toNat + σ.challengePeriod.toNat ≤ block.timestamp.toNat
  changes : σ.pendingStateRoot ≠ σ.latestStateRoot

instance (σ : Bridge) (block : Block) (msg : Msg) (call : BridgeCall) :
    Decidable (InstallsRoot σ block msg call) :=
  decidable_of_iff (call.isFinalizeOptimisticRoot = true ∧ msg.value = 0 ∧
      σ.optimisticMode = true ∧ σ.pendingStateRoot ≠ 0 ∧
      σ.pendingTimestamp.toNat + σ.challengePeriod.toNat ≤ block.timestamp.toNat ∧
      σ.pendingStateRoot ≠ σ.latestStateRoot)
    ⟨fun ⟨hcall, hvalue, hmode, hpending, helapsed, hchanges⟩ =>
      ⟨hcall, hvalue, hmode, hpending, helapsed, hchanges⟩,
    fun h => ⟨h.call, h.value, h.mode, h.pending, h.elapsed, h.changes⟩⟩

theorem InstallsRoot.ok {call : BridgeCall} (h : InstallsRoot σ block msg call) :
    ∃ σ', σ.call block msg call = .ok σ' ∧ σ'.latestStateRoot = σ.pendingStateRoot := by
  obtain ⟨hcall, hvalue, hmode, hpending, helapsed, -⟩ := h
  obtain rfl : call = .finalizeOptimisticRoot := by
    cases call <;> first | rfl | cases hcall
  have hsum : σ.pendingTimestamp.toNat + σ.challengePeriod.toNat < 2 ^ 256 :=
    helapsed.trans_lt block.timestamp.isLt
  have hle : σ.pendingTimestamp + σ.challengePeriod ≤ block.timestamp := by
    rw [BitVec.le_def, BitVec.toNat_add, Nat.mod_eq_of_lt hsum]
    exact helapsed
  have hadd : Bridge.checkedAdd σ.pendingTimestamp σ.challengePeriod =
      .ok (σ.pendingTimestamp + σ.challengePeriod) := by
    rw [Bridge.checkedAdd, if_pos hsum]
  refine ⟨{ σ with latestStateRoot := σ.pendingStateRoot, pendingStateRoot := 0 }.emit
    (.optimisticRootFinalized σ.pendingStateRoot), ?_, rfl⟩
  refine bind_ok_iff.mpr ⟨(), require_of_true _ (beq_iff_eq.mpr hvalue), ?_⟩
  refine bind_ok_iff.mpr ⟨(), require_of_true _ hmode, ?_⟩
  refine bind_ok_iff.mpr ⟨(), require_of_true _ (bne_iff_ne.mpr hpending), ?_⟩
  refine bind_ok_iff.mpr ⟨_, hadd, ?_⟩
  exact bind_ok_iff.mpr ⟨(), require_of_true _ (decide_eq_true hle), rfl⟩

theorem StepEffect.stays_frozen {label : BridgeStepLabel} (he : StepEffect σ label σ')
    (hfrozen : σ.isFrozen = true)
    (hunfreeze : ∀ block msg call, label = .call block msg call →
      ¬(call.isUnfreeze = true ∧ msg.sender = σ.owner)) : σ'.isFrozen = true := by
  cases he with
  | call he =>
    cases he with
    | unfreeze howner => exact absurd ⟨rfl, howner.symm⟩ (hunfreeze _ _ _ rfl)
    | freeze => rfl
    | _ => exact hfrozen
  | depositERC20 | withdraw => exact hfrozen
  | succeed k => cases k <;> exact hfrozen

/-- On a frozen bridge only a finalisation can change the latest root or the batches. -/
theorem StepEffect.sameBatches_of_frozen {label : BridgeStepLabel} (he : StepEffect σ label σ')
    (hfrozen : σ.isFrozen = true)
    (hinstall : ∀ block msg call, label = .call block msg call →
      ¬InstallsRoot σ block msg call) : σ.SameBatches σ' := by
  cases hset : label.setsRoot with
  | false => exact (he.keeps_roots hset).1
  | true =>
    cases he with
    | call he =>
      cases he with
      | commitVerified _ _ _ _ _ _ hchecks | commitOptimistic _ _ _ _ _ _ hchecks =>
        cases hfrozen.symm.trans hchecks.unfrozen
      | finalizeOptimisticRoot hvalue hmode hne htime =>
        have hsame : σ.pendingStateRoot = σ.latestStateRoot := by
          by_contra hchanges
          exact hinstall _ _ _ rfl ⟨rfl, hvalue, hmode, hne, htime, hchanges⟩
        exact ⟨hsame, rfl, rfl, rfl⟩
      | _ => cases hset
    | _ => cases hset

/-- A step that is not the owner's `unfreeze`, not a finalisation that installs a root, and
not the return of one of the outermost `depth` calls. -/
def Quiet (depth : ℕ) (c : BridgeMachine) : BridgeStepLabel → Prop
  | .call block msg call => ¬(call.isUnfreeze = true ∧ msg.sender = c.current.owner) ∧
      ¬InstallsRoot c.current block msg call
  | .depositERC20 _ _ _ _ _ => True
  | .withdraw _ _ _ _ _ _ => True
  | .succeed => depth < c.stack.length
  | .fail => depth < c.stack.length

instance (depth : ℕ) (c : BridgeMachine) : ∀ label, Decidable (Quiet depth c label)
  | .call block msg call => inferInstanceAs (Decidable
      (¬(call.isUnfreeze = true ∧ msg.sender = c.current.owner) ∧
        ¬InstallsRoot c.current block msg call))
  | .depositERC20 _ _ _ _ _ => inferInstanceAs (Decidable True)
  | .withdraw _ _ _ _ _ _ => inferInstanceAs (Decidable True)
  | .succeed => inferInstanceAs (Decidable (depth < c.stack.length))
  | .fail => inferInstanceAs (Decidable (depth < c.stack.length))

theorem BridgeStep.quiet_above {keccak256 : List UInt8 → Bytes32} {c c' : BridgeMachine}
    {label : BridgeStepLabel} {base : List (Bridge × OpenCall)} {σ₀ : Bridge}
    (hstep : BridgeStep keccak256 c label c') (hquiet : Quiet base.length c label)
    (h : c.Above base fun σ => σ.isFrozen = true ∧ σ₀.SameBatches σ) :
    c'.Above base fun σ => σ.isFrozen = true ∧ σ₀.SameBatches σ := by
  apply hstep.step.above h
  · rintro (rfl | rfl)
    · exact hquiet
    · exact hquiet
  · rintro σ he ⟨hfrozen, hsame⟩
    refine ⟨he.stays_frozen hfrozen ?_, hsame.trans (he.sameBatches_of_frozen hfrozen ?_)⟩
    · rintro block msg call rfl
      exact hquiet.1
    · rintro block msg call rfl
      exact hquiet.2

/-- On a frozen bridge, a call leaves the latest root and the batches as they are unless it
is a finalisation that installs a root. So does any sequence of calls, with all the calls
made in the course of them, without such a finalisation and without the owner's `unfreeze`. -/
theorem frozen_unchanged_iff (keccak256 : List UInt8 → Bytes32) (c : BridgeMachine)
    (hfrozen : c.current.isFrozen = true) :
    (∀ block msg call c', BridgeStep keccak256 c (.call block msg call) c' →
      (c.current.SameBatches c'.current ↔ ¬InstallsRoot c.current block msg call)) ∧
    ∀ labels d, Run (BridgeStep keccak256) c labels d →
      Along (BridgeStep keccak256) (Quiet c.stack.length) c labels →
      c.current.SameBatches d.current := by
  constructor
  · intro block msg call c' hstep
    constructor
    · intro hsame hinstall
      obtain ⟨σ, hok, hroot⟩ := hinstall.ok
      rcases hstep.call_cases with ⟨⟨revert, herror⟩, -⟩ | ⟨σ', hok', rfl⟩
      · cases hok.symm.trans herror
      · cases hok.symm.trans hok'
        exact hinstall.changes (hroot.symm.trans hsame.latest)
    · intro hinstall
      rcases hstep.step.current (by simp) with hsame | he
      · rw [hsame]
        exact ⟨rfl, rfl, rfl, rfl⟩
      · apply he.sameBatches_of_frozen hfrozen
        rintro block' msg' call' heq
        cases heq
        exact hinstall
  · intro labels d hr hquiet
    have habove : d.Above c.stack fun σ => σ.isFrozen = true ∧ c.current.SameBatches σ := by
      refine hr.invariant (fun s label t hs hq ht => ht.quiet_above hq hs) hquiet ?_
      exact ⟨⟨hfrozen, rfl, rfl, rfl, rfl⟩, [], rfl, by simp⟩
    exact habove.current.2

/-- A forced transaction of block 3 is overdue in block 14, and the bridge is frozen, with a
root pending since block 2. -/
def frozenSetup : List BridgeStepLabel :=
  optimisticSetup ++ [commitRootAt 2 11, ownerCallAt 3 (.forceTransaction 77),
    ownerCallAt 14 .freeze]

theorem frozen_unchanged_deposit :
    ∃ c d, Run (BridgeStep fun _ => 0) (CallFrames.start (Bridge.deploy 1 7 5 10)) frozenSetup c ∧
      Run (BridgeStep fun _ => 0) c
        [commitRootAt 15 12, .call ⟨15, 900⟩ ⟨2, 100⟩ (.deposit 2)] d ∧
      c.current.isFrozen = true ∧ d.current.balance = 100 ∧
      c.current.SameBatches d.current := by
  obtain ⟨c, d, hr, hr', h⟩ := exists_runs_of_foldlM (bridgeStep fun _ => 0)
    (CallFrames.start (Bridge.deploy 1 7 5 10)) frozenSetup
    [commitRootAt 15 12, .call ⟨15, 900⟩ ⟨2, 100⟩ (.deposit 2)]
    (fun c d => (c.current.isFrozen, d.current.balance,
      checkAlong (bridgeStep fun _ => 0) (Quiet c.stack.length) c
        [commitRootAt 15 12, .call ⟨15, 900⟩ ⟨2, 100⟩ (.deposit 2)]))
    (b := (true, 100, true)) (by decide +kernel)
  obtain ⟨hfrozen, h⟩ := Prod.mk.inj h
  obtain ⟨hbalance, hquiet⟩ := Prod.mk.inj h
  exact ⟨c, d, hr, hr', hfrozen, hbalance,
    (frozen_unchanged_iff (fun _ => 0) c hfrozen).2 _ d hr' (Along.of_check hquiet)⟩

/-- The pending root is installed while the bridge is frozen. -/
theorem frozen_changed_finalize :
    ∃ c c', Run (BridgeStep fun _ => 0) (CallFrames.start (Bridge.deploy 1 7 5 10))
        frozenSetup c ∧
      BridgeStep (fun _ => 0) c (ownerCallAt 11000 .finalizeOptimisticRoot) c' ∧
      c.current.isFrozen = true ∧ c.current.latestStateRoot = 5 ∧
      c'.current.latestStateRoot = 11 := by
  obtain ⟨c, c', hr, hstep, h⟩ := exists_step_of_foldlM (bridgeStep fun _ => 0)
    (CallFrames.start (Bridge.deploy 1 7 5 10)) frozenSetup
    (ownerCallAt 11000 .finalizeOptimisticRoot)
    (fun c c' => decide (c.current.isFrozen = true ∧ c.current.latestStateRoot = 5 ∧
      c'.current.latestStateRoot = 11)) (b := true) (by decide +kernel)
  exact ⟨c, c', hr, hstep, of_decide_eq_true h⟩

/-- Whoever may commit batches: the commitment reverts, and with it the freezing that it
has done, so the bridge stays as it was. -/
theorem commitBatch_overdue_unfrozen (keccak256 : List UInt8 → Bytes32) (c c' : BridgeMachine)
    (block : Block) (msg : Msg) (ext : External) (args : Bridge.CommitArgs)
    (hunfrozen : c.current.isFrozen = false) (hmissed : c.current.deadlineMissed block = true)
    (hstep : BridgeStep keccak256 c (.call block msg (.commitBatch ext args)) c') :
    c' = c ∧ c'.current.isFrozen = false := by
  rcases hstep.call_cases with ⟨-, rfl⟩ | ⟨σ, hok, -⟩
  · exact ⟨rfl, hunfrozen⟩
  · obtain ⟨_, _, _, hchecks⟩ := (call_effect hok).checks
    cases hmissed.symm.trans hchecks.onTime

def overdueSetup : List BridgeStepLabel :=
  [ownerCallAt 2 (.setDAProvider 0 9 true), ownerCallAt 3 (.forceTransaction 77)]

theorem commitBatch_overdue_unfrozen_block14 :
    ∃ c c', Run (BridgeStep fun _ => 0) (CallFrames.start (Bridge.deploy 1 7 5 10))
        overdueSetup c ∧
      BridgeStep (fun _ => 0) c (commitRootAt 14 11) c' ∧ c' = c ∧
      c'.current.isFrozen = false := by
  obtain ⟨c, c', hr, hstep, h⟩ := exists_step_of_foldlM (bridgeStep fun _ => 0)
    (CallFrames.start (Bridge.deploy 1 7 5 10)) overdueSetup (commitRootAt 14 11)
    (fun c _ => (c.current.isFrozen, c.current.deadlineMissed ⟨14, 840⟩)) (b := (false, true))
    (by decide +kernel)
  obtain ⟨hunfrozen, hmissed⟩ := Prod.mk.inj h
  exact ⟨c, c', hr, hstep, commitBatch_overdue_unfrozen (fun _ => 0) c c' _ _ _ _ hunfrozen
    hmissed hstep⟩

/-- The sequencer commits a batch in block 14, eleven blocks after the forced transaction
of a bridge with a delay of ten: the bridge is not frozen. -/
theorem commitBatch_overdue_notFrozen :
    ∃ c c', Run (BridgeStep fun _ => 0) (CallFrames.start (Bridge.deploy 1 7 5 10))
        overdueSetup c ∧
      BridgeStep (fun _ => 0) c (commitRootAt 14 11) c' ∧
      c.current.forcedTxQueue[c.current.forcedHead]? = some 77 ∧
      c.current.forcedTxTimestamps 77 = 13 ∧ c'.current.isFrozen = false := by
  obtain ⟨c, c', hr, hstep, h⟩ := exists_step_of_foldlM (bridgeStep fun _ => 0)
    (CallFrames.start (Bridge.deploy 1 7 5 10)) overdueSetup (commitRootAt 14 11)
    (fun c c' => decide (c.current.forcedTxQueue[c.current.forcedHead]? = some 77 ∧
      c.current.forcedTxTimestamps 77 = 13 ∧ c'.current.isFrozen = false)) (b := true)
    (by decide +kernel)
  exact ⟨c, c', hr, hstep, of_decide_eq_true h⟩

def BridgeEvent.enqueued : BridgeEvent → Option (Bytes32 × Uint256)
  | .forcedTransactionEnqueued txHash deadline => some (txHash, deadline)
  | _ => none

def Bridge.enqueued (σ : Bridge) : List (Bytes32 × Uint256) :=
  σ.events.filterMap BridgeEvent.enqueued

def lastDeadline (txHash : Bytes32) (enqueued : List (Bytes32 × Uint256)) : Option Uint256 :=
  (enqueued.reverse.find? fun e => e.1 == txHash).map Prod.snd

theorem lastDeadline_concat (txHash : Bytes32) (l : List (Bytes32 × Uint256))
    (e : Bytes32 × Uint256) : lastDeadline txHash (l ++ [e]) =
      if e.1 = txHash then some e.2 else lastDeadline txHash l := by
  rw [lastDeadline, List.reverse_append, List.reverse_singleton, List.singleton_append,
    List.find?_cons]
  by_cases h : e.1 = txHash
  · simp [h]
  · have hbeq : (e.1 == txHash) = false := beq_false_of_ne h
    rw [if_neg h, lastDeadline]
    simp [hbeq]

theorem lastDeadline_of_getElem? {txHash : Bytes32} {deadline : Uint256}
    {l : List (Bytes32 × Uint256)} {i : ℕ} (h : l[i]? = some (txHash, deadline)) :
    lastDeadline txHash l = some ((lastDeadline txHash (l.drop (i + 1))).getD deadline) := by
  obtain ⟨hi, hget⟩ := List.getElem?_eq_some_iff.mp h
  have hsplit : l = l.take i ++ ((txHash, deadline) :: l.drop (i + 1)) := by
    rw [← hget, List.getElem_cons_drop, List.take_append_drop]
  have hreverse : l.reverse = (l.drop (i + 1)).reverse ++
      ((txHash, deadline) :: (l.take i).reverse) := by
    conv_lhs => rw [hsplit]
    simp
  rw [lastDeadline, hreverse, List.find?_append, List.find?_cons_of_pos (by simp), lastDeadline]
  cases (l.drop (i + 1)).reverse.find? fun e => e.1 == txHash <;> rfl

@[simp] theorem Bridge.enqueued_emit (σ : Bridge) (event : BridgeEvent) :
    (σ.emit event).enqueued = σ.enqueued ++ event.enqueued.toList := by
  cases h : event.enqueued <;> simp [enqueued, emit, List.filterMap_append, h]

def BridgeStepLabel.forced : BridgeStepLabel → Option Bytes32
  | .call _ _ (.forceTransaction txHash) => some txHash
  | _ => none

/-- The two bridges agree in the queue, the deadlines and what was announced of them. -/
structure Bridge.SameForced (σ σ' : Bridge) : Prop where
  enqueued : σ'.enqueued = σ.enqueued
  queue : σ'.forcedTxQueue = σ.forcedTxQueue
  timestamps : σ'.forcedTxTimestamps = σ.forcedTxTimestamps
  head : σ'.forcedHead = σ.forcedHead

theorem Bridge.sameForced_emit {τ : Bridge} {event : BridgeEvent} (h : σ.SameForced τ)
    (hevent : event.enqueued = none) : σ.SameForced (τ.emit event) :=
  ⟨by simp [hevent, h.enqueued], h.queue, h.timestamps, h.head⟩

theorem Bridge.sameForced_addBatch {τ : Bridge} {next : Uint256} {daMeta : List UInt8}
    {batch : CommittedBatch} (h : σ.SameForced τ) : σ.SameForced (τ.addBatch next daMeta batch) :=
  Bridge.sameForced_emit (Bridge.sameForced_emit
    ⟨h.enqueued, h.queue, h.timestamps, h.head⟩ rfl) rfl

theorem StepEffect.sameForced {label : BridgeStepLabel} (he : StepEffect σ label σ')
    (hlabel : label.forced = none) : σ.SameForced σ' := by
  have hrefl : ∀ τ : Bridge, τ.events = σ.events → τ.forcedTxQueue = σ.forcedTxQueue →
      τ.forcedTxTimestamps = σ.forcedTxTimestamps → τ.forcedHead = σ.forcedHead →
      σ.SameForced τ :=
    fun τ he hq ht hh => ⟨by rw [Bridge.enqueued, he]; rfl, hq, ht, hh⟩
  cases he with
  | @call block _ _ _ he =>
    have hsoft : ∀ newRoot, σ.SameForced (σ.softCommit block newRoot) :=
      fun _ => Bridge.sameForced_emit (hrefl _ rfl rfl rfl rfl) rfl
    cases he with
    | forceTransaction => cases hlabel
    | setOptimisticMode | setChallengePeriod => exact hrefl _ rfl rfl rfl rfl
    | commitVerified ext args | commitOptimistic ext args =>
      have hsoft := hsoft args.newRoot
      exact Bridge.sameForced_addBatch
        ⟨hsoft.enqueued, hsoft.queue, hsoft.timestamps, hsoft.head⟩
    | _ => exact Bridge.sameForced_emit (hrefl _ rfl rfl rfl rfl) rfl
  | depositERC20 | withdraw => exact hrefl _ rfl rfl rfl rfl
  | succeed k => cases k <;> exact Bridge.sameForced_emit (hrefl _ rfl rfl rfl rfl) rfl

/-- The queue holds what was announced, and the deadline of a hash is the one announced last. -/
structure Bridge.Announced (σ : Bridge) : Prop where
  queue : σ.enqueued.map Prod.fst = σ.forcedTxQueue
  deadline : ∀ txHash d, lastDeadline txHash σ.enqueued = some d →
    σ.forcedTxTimestamps txHash = d

theorem Bridge.Announced.step {label : BridgeStepLabel} (h : σ.Announced)
    (he : StepEffect σ label σ') : σ'.Announced := by
  cases hforced : label.forced with
  | none =>
    have hs := he.sameForced hforced
    refine ⟨?_, ?_⟩
    · rw [hs.enqueued, hs.queue]
      exact h.queue
    · rw [hs.enqueued, hs.timestamps]
      exact h.deadline
  | some txHash =>
    cases he with
    | call he =>
      cases he with
      | forceTransaction txHash' deadline =>
        have henqueued := Bridge.enqueued_emit
          { σ with
            forcedTxTimestamps := Function.update σ.forcedTxTimestamps txHash' deadline
            forcedTxQueue := σ.forcedTxQueue ++ [txHash'] }
          (.forcedTransactionEnqueued txHash' deadline)
        refine ⟨?_, ?_⟩
        · rw [henqueued, List.map_append]
          exact congrArg (fun l => l ++ [txHash']) h.queue
        · intro hash d hlast
          rw [henqueued] at hlast
          change lastDeadline hash (σ.enqueued ++ [(txHash', deadline)]) = some d at hlast
          change Function.update σ.forcedTxTimestamps txHash' deadline hash = d
          rw [lastDeadline_concat] at hlast
          by_cases heq : txHash' = hash
          · rw [if_pos heq, Option.some.injEq] at hlast
            rw [← heq, Function.update_self]
            exact hlast
          · rw [if_neg heq] at hlast
            rw [Function.update_of_ne (Ne.symm heq)]
            exact h.deadline hash d hlast
      | _ => cases hforced
    | _ => cases hforced

theorem announced_of_run {keccak256 : List UInt8 → Bytes32} {sender verifier : EthAddress}
    {genesisRoot : Bytes32} {delay : Uint256} {labels : List BridgeStepLabel}
    {c : BridgeMachine}
    (hr : Run (BridgeStep keccak256)
      (CallFrames.start (Bridge.deploy sender verifier genesisRoot delay)) labels c) :
    c.current.Announced := by
  have hall : c.All Bridge.Announced := by
    apply hr.invariant_of_step (I := fun c => c.All Bridge.Announced)
    · intro d label d' hd hstep
      exact hstep.step.all hd fun σ he h => h.step he
    · refine CallFrames.all_start ⟨rfl, ?_⟩
      intro txHash d hlast
      cases hlast
  exact hall.current

def Bridge.Overdue (σ : Bridge) (txHash : Bytes32) (number : Uint256) : Prop :=
  σ.forcedTxQueue[σ.forcedHead]? = some txHash ∧ σ.forcedTxTimestamps txHash < number

theorem deadlineMissed_iff : σ.deadlineMissed block = true ↔
    ∃ txHash, σ.Overdue txHash block.number := by
  unfold Bridge.deadlineMissed Bridge.Overdue
  cases h : σ.forcedTxQueue[σ.forcedHead]? with
  | none => simp
  | some txHash => simp

theorem freeze_ok_iff (hvalue : msg.value = 0) :
    (∃ σ', σ.freeze block msg = .ok σ' ∧ σ'.isFrozen = true) ↔ σ.deadlineMissed block = true := by
  constructor
  · rintro ⟨σ', hok, -⟩
    obtain ⟨-, -, h⟩ := bind_ok_iff.mp hok
    obtain ⟨_, hmissed, -⟩ := bind_ok_iff.mp h
    exact require_ok hmissed
  · intro hmissed
    refine ⟨{ σ with isFrozen := true }.emit (.bridgeFrozen "Censorship proven via freeze()"),
      ?_, rfl⟩
    refine bind_ok_iff.mpr ⟨(), require_of_true _ (beq_iff_eq.mpr hvalue), ?_⟩
    exact bind_ok_iff.mpr ⟨(), require_of_true _ hmissed, rfl⟩

/-- In every state of every run: when the deadline that was emitted for the entry at the
head of the queue has passed, `freeze` goes through exactly if no later call for the same
hash has moved the deadline to a block not yet passed. -/
theorem freeze_succeeds_iff (keccak256 : List UInt8 → Bytes32) (sender verifier : EthAddress)
    (genesisRoot : Bytes32) (delay : Uint256) (labels : List BridgeStepLabel)
    (c : BridgeMachine)
    (hr : Run (BridgeStep keccak256)
      (CallFrames.start (Bridge.deploy sender verifier genesisRoot delay)) labels c)
    (block : Block) (msg : Msg) (hvalue : msg.value = 0) (txHash : Bytes32) (deadline : Uint256)
    (hentry : c.current.enqueued[c.current.forcedHead]? = some (txHash, deadline))
    (hpast : deadline < block.number) :
    (∃ σ, c.current.freeze block msg = .ok σ ∧ σ.isFrozen = true) ↔
      ∀ d, lastDeadline txHash (c.current.enqueued.drop (c.current.forcedHead + 1)) = some d →
        d < block.number := by
  have hc := announced_of_run hr
  have hhead : c.current.forcedTxQueue[c.current.forcedHead]? = some txHash := by
    rw [← hc.queue, List.getElem?_map, hentry, Option.map_some]
  have hdeadline := hc.deadline txHash _ (lastDeadline_of_getElem? hentry)
  rw [freeze_ok_iff hvalue, deadlineMissed_iff]
  constructor
  · rintro ⟨txHash', hhead', hlt⟩ d hd
    obtain rfl := Option.some.inj (hhead.symm.trans hhead')
    rw [hdeadline, hd] at hlt
    exact hlt
  · intro hlast
    refine ⟨txHash, hhead, ?_⟩
    rw [hdeadline]
    cases hd : lastDeadline txHash (c.current.enqueued.drop (c.current.forcedHead + 1)) with
    | none => exact hpast
    | some d => exact hlast d hd

theorem freeze_succeeds_otherHash :
    ∃ c, Run (BridgeStep fun _ => 0) (CallFrames.start (Bridge.deploy 1 7 5 10))
        (overdueSetup ++ [.call ⟨12, 720⟩ ⟨2, 0⟩ (.forceTransaction 78)]) c ∧
      ∃ σ, c.current.freeze ⟨14, 840⟩ ⟨3, 0⟩ = .ok σ ∧ σ.isFrozen = true := by
  obtain ⟨c, hr, h⟩ := exists_run_of_foldlM (bridgeStep fun _ => 0)
    (CallFrames.start (Bridge.deploy 1 7 5 10))
    (overdueSetup ++ [.call ⟨12, 720⟩ ⟨2, 0⟩ (.forceTransaction 78)])
    (fun c => (c.current.enqueued, c.current.forcedHead)) (b := ([(77, 13), (78, 22)], 0))
    (by decide +kernel)
  obtain ⟨henqueued, hhead⟩ := Prod.mk.inj h
  refine ⟨c, hr, (freeze_succeeds_iff (fun _ => 0) 1 7 5 10 _ c hr ⟨14, 840⟩ ⟨3, 0⟩ rfl 77 13 ?_
    (by decide)).mpr ?_⟩
  · rw [henqueued, hhead]
    rfl
  · rw [henqueued, hhead]
    intro d hd
    cases hd

/-- Someone forces the same hash again in block 12: the deadline 13 that was emitted for the
entry at the head has passed in block 14, and `freeze` reverts. -/
theorem freeze_reverts_sameHash :
    ∃ c, Run (BridgeStep fun _ => 0) (CallFrames.start (Bridge.deploy 1 7 5 10))
        (overdueSetup ++ [.call ⟨12, 720⟩ ⟨2, 0⟩ (.forceTransaction 77)]) c ∧
      c.current.enqueued[c.current.forcedHead]? = some (77, 13) ∧
      ∀ σ, c.current.freeze ⟨14, 840⟩ ⟨3, 0⟩ ≠ .ok σ := by
  obtain ⟨c, hr, h⟩ := exists_run_of_foldlM (bridgeStep fun _ => 0)
    (CallFrames.start (Bridge.deploy 1 7 5 10))
    (overdueSetup ++ [.call ⟨12, 720⟩ ⟨2, 0⟩ (.forceTransaction 77)])
    (fun c => (c.current.enqueued[c.current.forcedHead]?,
      (c.current.freeze ⟨14, 840⟩ ⟨3, 0⟩).toOption.isSome)) (b := (some (77, 13), false))
    (by decide +kernel)
  obtain ⟨hentry, hfreeze⟩ := Prod.mk.inj h
  refine ⟨c, hr, hentry, fun σ hok => ?_⟩
  rw [hok] at hfreeze
  cases hfreeze

/-- Only forcing the same hash again ends that it is overdue. -/
theorem Bridge.Overdue.step {label : BridgeStepLabel} {txHash : Bytes32} {number : Uint256}
    (h : σ.Overdue txHash number) (he : StepEffect σ label σ')
    (hlabel : label.forced ≠ some txHash) : σ'.Overdue txHash number := by
  cases hforced : label.forced with
  | none =>
    have hs := he.sameForced hforced
    exact ⟨by rw [hs.queue, hs.head]; exact h.1, by rw [hs.timestamps]; exact h.2⟩
  | some txHash' =>
    cases he with
    | call he =>
      cases he with
      | forceTransaction txHash' deadline =>
        obtain ⟨hhead, hlt⟩ := h
        have hne : txHash ≠ txHash' := fun heq => hlabel (heq ▸ rfl)
        refine ⟨?_, ?_⟩
        · change (σ.forcedTxQueue ++ [txHash'])[σ.forcedHead]? = some txHash
          rw [List.getElem?_append_left (List.getElem?_eq_some_iff.mp hhead).1]
          exact hhead
        · change Function.update σ.forcedTxTimestamps txHash' deadline txHash < number
          rw [Function.update_of_ne hne]
          exact hlt
      | _ => cases hforced
    | _ => cases hforced

theorem Bridge.Overdue.of_step {label : BridgeStepLabel} {txHash : Bytes32} {number : Uint256}
    (h : σ'.Overdue txHash number) (he : StepEffect σ label σ')
    (hblock : ∀ block, label.callBlock = some block → number ≤ block.number) :
    σ.Overdue txHash number := by
  cases hforced : label.forced with
  | none =>
    have hs := he.sameForced hforced
    exact ⟨by rw [← hs.queue, ← hs.head]; exact h.1, by rw [← hs.timestamps]; exact h.2⟩
  | some txHash' =>
    cases he with
    | call he =>
      cases he with
      | forceTransaction txHash' deadline hfrozen hdeadline =>
        obtain ⟨hhead, hlt⟩ := h
        change (σ.forcedTxQueue ++ [txHash'])[σ.forcedHead]? = some txHash at hhead
        change Function.update σ.forcedTxTimestamps txHash' deadline txHash < number at hlt
        have hlate : ¬deadline < number := by
          have hle := hblock _ rfl
          rw [BitVec.le_def] at hle
          rw [BitVec.lt_def]
          omega
        have hne : txHash ≠ txHash' := by
          rintro rfl
          rw [Function.update_self] at hlt
          exact hlate hlt
        rw [Function.update_of_ne hne] at hlt
        refine ⟨?_, hlt⟩
        rcases Nat.lt_or_ge σ.forcedHead σ.forcedTxQueue.length with hin | hout
        · rwa [List.getElem?_append_left hin] at hhead
        · rw [List.getElem?_append_right hout] at hhead
          have hmem := List.mem_of_getElem? hhead
          exact absurd (List.mem_singleton.mp hmem) hne
      | _ => cases hforced
    | _ => cases hforced

/-- What is overdue now, in the block of the calls in progress, was overdue when each of
them was made; and they are all in one block. -/
def SavedOverdue : Bridge → List (Bridge × OpenCall) → Prop
  | _, [] => True
  | σ, (saved, k) :: rest =>
    (∀ txHash, σ.Overdue txHash k.block.number → saved.Overdue txHash k.block.number) ∧
      (∀ frame ∈ rest, frame.2.block = k.block) ∧ SavedOverdue saved rest

theorem block_eq_of_inBlock {c : BridgeMachine} {saved : Bridge} {k : OpenCall}
    {rest : List (Bridge × OpenCall)} (h : inBlock c block = true)
    (hstack : c.stack = (saved, k) :: rest) : k.block = block := by
  simp only [inBlock, hstack] at h
  exact eq_of_beq h

theorem SavedOverdue.block_eq {c : BridgeMachine} (h : SavedOverdue c.current c.stack)
    (hblock : inBlock c block = true) : ∀ frame ∈ c.stack, frame.2.block = block := by
  cases hstack : c.stack with
  | nil => simp
  | cons top rest =>
    have htop := block_eq_of_inBlock hblock hstack
    rw [hstack] at h
    intro frame hframe
    rcases List.mem_cons.mp hframe with rfl | hframe
    · exact htop
    · exact (h.2.1 frame hframe).trans htop

theorem BridgeStep.savedOverdue {keccak256 : List UInt8 → Bytes32} {c c' : BridgeMachine}
    {label : BridgeStepLabel} (hstep : BridgeStep keccak256 c label c')
    (h : SavedOverdue c.current c.stack) : SavedOverdue c'.current c'.stack := by
  have hlabel : ∀ frame ∈ c.stack, ∀ block, label.callBlock = some block →
      frame.2.block.number ≤ block.number := by
    intro frame hframe block hblock
    rw [h.block_eq (hstep.inBlock hblock) frame hframe]
    exact BitVec.le_refl _
  cases hstep.step with
  | stay => exact h
  | @update σ he =>
    change SavedOverdue σ c.stack
    cases hstack : c.stack with
    | nil => trivial
    | cons top rest =>
      rw [hstack] at h hlabel
      refine ⟨fun txHash hover => h.1 txHash (hover.of_step he ?_), h.2⟩
      exact hlabel top List.mem_cons_self
  | @enter σ k hopen he =>
    refine ⟨fun txHash hover => hover.of_step he ?_, h.block_eq (hstep.inBlock hopen), h⟩
    intro block hblock
    rw [Option.some.inj (hopen.symm.trans hblock)]
    exact BitVec.le_refl _
  | @leave σ saved k rest hclose hstack he =>
    subst hclose
    change SavedOverdue σ rest
    rw [hstack] at h
    cases rest with
    | nil => trivial
    | cons top rest =>
      have hblock : top.2.block = k.block := h.2.1 top List.mem_cons_self
      refine ⟨fun txHash hover => h.2.2.1 txHash ?_, h.2.2.2⟩
      rw [hblock] at hover ⊢
      exact h.1 txHash (hover.of_step he fun block hblock => by cases hblock)
  | rollback hundo hstack =>
    rw [hstack] at h
    exact h.2.2

theorem SavedOverdue.all {c : BridgeMachine} {txHash : Bytes32}
    (h : SavedOverdue c.current c.stack) (hblock : inBlock c block = true)
    (hover : c.current.Overdue txHash block.number) :
    c.All fun σ => σ.Overdue txHash block.number := by
  refine ⟨hover, ?_⟩
  have hblocks := h.block_eq hblock
  obtain ⟨σ, stack⟩ := c
  simp only at h hover hblocks ⊢
  clear hblock
  induction stack generalizing σ with
  | nil => simp
  | cons top rest ih =>
    have htop : top.1.Overdue txHash block.number := by
      rw [← hblocks top List.mem_cons_self] at hover ⊢
      exact h.1 txHash hover
    refine List.forall_mem_cons.mpr ⟨htop, ih top.1 h.2.2 htop fun frame hframe => ?_⟩
    exact hblocks frame (List.mem_cons_of_mem _ hframe)

/-- In every state of every run: if the forced transaction at the head of the queue is
overdue and the owner calls `unfreeze`, then after any further calls that do not force the
same hash again, no commitment in that block or a later one goes through, whoever makes it
and whatever the provider and the verifier answer. -/
theorem unfreeze_commitBatch_reverts (keccak256 : List UInt8 → Bytes32)
    (sender verifier : EthAddress) (genesisRoot : Bytes32) (delay : Uint256)
    (labels : List BridgeStepLabel) (c c₁ : BridgeMachine)
    (hr : Run (BridgeStep keccak256)
      (CallFrames.start (Bridge.deploy sender verifier genesisRoot delay)) labels c)
    (block : Block) (msg : Msg) (txHash : Bytes32)
    (hoverdue : c.current.Overdue txHash block.number)
    (hunfreeze : BridgeStep keccak256 c (.call block msg .unfreeze) c₁)
    (later : List BridgeStepLabel) (d : BridgeMachine)
    (hlater : Run (BridgeStep keccak256) c₁ later d)
    (hforced : ∀ label ∈ later, label.forced ≠ some txHash)
    (block' : Block) (hblock : block.number ≤ block'.number) (msg' : Msg) (ext : External)
    (args : Bridge.CommitArgs) (σ : Bridge) :
    d.current.commitBatch block' msg' ext args ≠ .ok σ := by
  have hsaved : SavedOverdue c.current c.stack := by
    apply hr.invariant_of_step (I := fun c => SavedOverdue c.current c.stack)
    · intro s label t hs hstep
      exact hstep.savedOverdue hs
    · trivial
  have hc := hsaved.all (hunfreeze.inBlock rfl) hoverdue
  have hc₁ : c₁.All fun σ => σ.Overdue txHash block.number :=
    hunfreeze.step.all hc fun σ he h => h.step he (by simp [BridgeStepLabel.forced])
  have hd : d.All fun σ => σ.Overdue txHash block.number := by
    have hnever : Along (BridgeStep keccak256) (fun _ label => label.forced ≠ some txHash) c₁
        later :=
      Along.of_forall fun label hlabel _ => hforced label hlabel
    apply hlater.invariant _ hnever hc₁
    intro s label t hs hlabel hstep
    exact hstep.step.all hs fun σ he h => h.step he hlabel
  intro hok
  obtain ⟨_, _, _, hchecks⟩ := (commitBatch_effect hok).checks
  have hlt : d.current.forcedTxTimestamps txHash < block'.number := by
    have hover := hd.current.2
    rw [BitVec.lt_def] at hover ⊢
    exact Nat.lt_of_lt_of_le hover hblock
  have hmissed := deadlineMissed_iff.mpr ⟨txHash, hd.current.1, hlt⟩
  cases hmissed.symm.trans hchecks.onTime

def overdueFrozen : List BridgeStepLabel :=
  overdueSetup ++ [ownerCallAt 14 .freeze]

theorem unfreeze_commitBatch_reverts_block15 :
    ∃ c c₁ d, Run (BridgeStep fun _ => 0) (CallFrames.start (Bridge.deploy 1 7 5 10))
        overdueFrozen c ∧
      BridgeStep (fun _ => 0) c (ownerCallAt 14 .unfreeze) c₁ ∧
      Run (BridgeStep fun _ => 0) c₁ [ownerCallAt 15 (.forceTransaction 78)] d ∧
      d.current.isFrozen = false ∧
      ∀ σ, d.current.commitBatch ⟨15, 900⟩ ⟨1, 0⟩ acceptingExternal
        ⟨0, 0, [], [], 11, List.replicate 256 0⟩ ≠ .ok σ := by
  obtain ⟨c, d, hr, hr', h⟩ := exists_runs_of_foldlM (bridgeStep fun _ => 0)
    (CallFrames.start (Bridge.deploy 1 7 5 10)) overdueFrozen
    [ownerCallAt 14 .unfreeze, ownerCallAt 15 (.forceTransaction 78)]
    (fun c d => decide (c.current.forcedTxQueue[c.current.forcedHead]? = some 77 ∧
      c.current.forcedTxTimestamps 77 < 14 ∧ d.current.isFrozen = false)) (b := true)
    (by decide +kernel)
  obtain ⟨hhead, hlt, hunfrozen⟩ := of_decide_eq_true h
  obtain ⟨c₁, hunfreeze, hlater⟩ := run_cons_iff.mp hr'
  refine ⟨c, c₁, d, hr, hunfreeze, hlater, hunfrozen, ?_⟩
  exact unfreeze_commitBatch_reverts (fun _ => 0) 1 7 5 10 _ c c₁ hr _ _ 77 ⟨hhead, hlt⟩ hunfreeze
    _ d hlater (by decide) _ (by decide) _ _ _

/-- The bridge is unfrozen, and the sequencer's next commitment, with an enabled provider
and an accepted proof, reverts as before. -/
theorem unfreeze_commit_blocked :
    ∃ c d, Run (BridgeStep fun _ => 0) (CallFrames.start (Bridge.deploy 1 7 5 10))
        overdueFrozen c ∧
      Run (BridgeStep fun _ => 0) c [ownerCallAt 14 .unfreeze] d ∧
      c.current.isFrozen = true ∧ d.current.isFrozen = false ∧
      d.current.commitBatch ⟨15, 900⟩ ⟨1, 0⟩ acceptingExternal
        ⟨0, 0, [], [], 11, List.replicate 256 0⟩ matches .error .bridgeFrozen := by
  obtain ⟨c, d, hr, hr', h⟩ := exists_runs_of_foldlM (bridgeStep fun _ => 0)
    (CallFrames.start (Bridge.deploy 1 7 5 10)) overdueFrozen [ownerCallAt 14 .unfreeze]
    (fun c d => decide (c.current.isFrozen = true ∧ d.current.isFrozen = false ∧
      d.current.commitBatch ⟨15, 900⟩ ⟨1, 0⟩ acceptingExternal
        ⟨0, 0, [], [], 11, List.replicate 256 0⟩ matches .error .bridgeFrozen)) (b := true)
    (by decide +kernel)
  exact ⟨c, d, hr, hr', of_decide_eq_true h⟩

end RollupX.Contracts
