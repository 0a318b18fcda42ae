import RollupX.Library.Run
import RollupX.Verification.Executor.Engine
import RollupX.Verification.Executor.Steps

/-! Failed attempts of the executor's worker and the effects they leave. -/

namespace RollupX.Executor

open Machine

variable {S : Type*} {env : ServiceEnv S}

def Service.effectsOf (σ : Service S) (batchId : String) : List Transaction :=
  (σ.effects.filter fun e => e.1 = batchId).map Prod.snd

def Service.payloadOf (σ : Service S) (batchId : String) : Option BatchPayload :=
  (σ.stream.filter fun p => p.batchId = batchId).getLast?

def Service.ListsEffects (σ : Service S) (batchId : String) : Prop :=
  ∃ p ∈ σ.payloadOf batchId, ∀ tx ∈ σ.effectsOf batchId, tx ∈ p.executed

def WorkerPhase.unsent : WorkerPhase S → Option (PendingBatchJob × ExecutionTraceV1)
  | .executed job _ trace => some (job, trace)
  | .proved job _ trace _ => some (job, trace)
  | _ => none

def WorkerPhase.attempt : WorkerPhase S → Option (PendingBatchJob × S)
  | .executed job pre _ => some (job, pre)
  | .proved job pre _ _ => some (job, pre)
  | .sent job pre => some (job, pre)
  | _ => none

/-- No effect is lost: each one is listed by a payload on the stream, or the attempt it
belongs to has yet to reach the stream; and the payload of a completed batch lists all the
effects of that batch. -/
structure Service.NoEffectLost (σ : Service S) : Prop where
  published : ∀ e ∈ σ.effects,
    (∃ p ∈ σ.stream, p.batchId = e.1 ∧ e.2 ∈ p.executed) ∨
      ∃ x ∈ σ.worker.unsent, x.1.payload.batchId = e.1 ∧ e.2 ∈ x.2.executedTransactions
  completed : ∀ batchId, σ.batchStates batchId = some .completed → σ.ListsEffects batchId

/-- The event ends an attempt without completing its batch. -/
def givesUp (env : ServiceEnv S) (σ : Service S) : ServiceEvent → Bool
  | .fail _ _ => true
  | .panic => true
  | .prove artifacts => env.violates artifacts
  | .send => σ.subscribers == 0 && !σ.serverReceiver
  | _ => false

/-- Attempts are given up only where the checks reject each transaction of the batch
against the accounts that the attempt started from. -/
def GivesUpRejected (env : ServiceEnv S) (σ : Service S) (event : ServiceEvent) : Prop :=
  givesUp env σ event = true → ∀ a ∈ σ.worker.attempt,
    AllRejected env.rt (env.mgr.getAccount a.2) (a.1.payload.batchId, a.1.txs)

instance (σ : Service S) (event : ServiceEvent) : Decidable (GivesUpRejected env σ event) :=
  inferInstanceAs (Decidable (givesUp env σ event = true → ∀ a ∈ σ.worker.attempt,
    ∀ tx ∈ a.1.txs, rejection env.rt (env.mgr.getAccount a.2 tx.sender) tx ≠ none))

def WorkerPhase.toExecute : WorkerPhase S → ServiceEvent → Option PendingBatchJob
  | .started job, .execute => some job
  | _, _ => none

/-- `execute_batch` itself does not fail: failures come after it. -/
def ExecutionReturns (env : ServiceEnv S) (σ : Service S) (event : ServiceEvent) : Prop :=
  ∀ job ∈ σ.worker.toExecute event,
    Succeeds env.rt env.mgr σ.engine job.payload.batchId job.txs

/-- What the map of batch states holds for the worker's job. -/
def WorkerPhase.batchState : WorkerPhase S → BatchProcessingState
  | .received _ => .pending
  | _ => .inProgress

def Service.live (σ : Service S) : List String :=
  (σ.senders ++ σ.queue ++ σ.worker.job.toList).map fun job => job.payload.batchId

structure Service.Invariant (env : ServiceEnv S) (σ : Service S) : Prop where
  nodup : σ.live.Nodup
  waiting : ∀ job ∈ σ.senders ++ σ.queue, σ.batchStates job.payload.batchId = some .pending
  working : ∀ job ∈ σ.worker.job,
    σ.batchStates job.payload.batchId = some σ.worker.batchState
  /-- Only a completed batch, or the one past `execute_batch`, has effects. -/
  effects : ∀ batchId, σ.effectsOf batchId ≠ [] →
    σ.batchStates batchId = some .completed ∨
      ∃ a ∈ σ.worker.attempt, a.1.payload.batchId = batchId
  rejected : ∀ a ∈ σ.worker.attempt,
    AllRejected env.rt (env.mgr.getAccount a.2) (a.1.payload.batchId, a.1.txs) →
      σ.effectsOf a.1.payload.batchId = []
  unsent : ∀ x ∈ σ.worker.unsent,
    σ.effectsOf x.1.payload.batchId = x.2.executedTransactions
  sent : ∀ job pre, σ.worker = .sent job pre → σ.ListsEffects job.payload.batchId
  completed : ∀ batchId, σ.batchStates batchId = some .completed → σ.ListsEffects batchId

theorem Service.mem_effectsOf {σ : Service S} {batchId : String} {tx : Transaction} :
    tx ∈ σ.effectsOf batchId ↔ (batchId, tx) ∈ σ.effects := by
  simp [effectsOf]

theorem Service.ListsEffects.exists_payload {σ : Service S} {batchId : String}
    (h : σ.ListsEffects batchId) {tx : Transaction} (htx : tx ∈ σ.effectsOf batchId) :
    ∃ p ∈ σ.stream, p.batchId = batchId ∧ tx ∈ p.executed := by
  obtain ⟨p, hp, hlists⟩ := h
  have hmem := List.mem_of_getLast? hp
  rw [List.mem_filter, decide_eq_true_eq] at hmem
  exact ⟨p, hmem.1, hmem.2, hlists tx htx⟩

theorem WorkerPhase.unsent_or_sent {w : WorkerPhase S} {a : PendingBatchJob × S}
    (h : a ∈ w.attempt) : (∃ trace, (a.1, trace) ∈ w.unsent) ∨ w = .sent a.1 a.2 := by
  cases w with
  | executed job pre trace | proved job pre trace artifacts =>
    cases h
    exact .inl ⟨trace, rfl⟩
  | sent job pre =>
    cases h
    exact .inr rfl
  | idle | received job | started job | failing job reason | stopped => cases h

theorem Service.Invariant.noEffectLost {σ : Service S} (h : σ.Invariant env) :
    σ.NoEffectLost := by
  refine ⟨?_, h.completed⟩
  rintro ⟨batchId, tx⟩ he
  have htx : tx ∈ σ.effectsOf batchId := Service.mem_effectsOf.mpr he
  rcases h.effects batchId (List.ne_nil_of_mem htx) with hdone | ⟨a, ha, rfl⟩
  · exact .inl ((h.completed batchId hdone).exists_payload htx)
  · rcases WorkerPhase.unsent_or_sent ha with ⟨trace, hun⟩ | hsent
    · right
      refine ⟨(a.1, trace), hun, rfl, ?_⟩
      rw [← h.unsent (a.1, trace) hun]
      exact htx
    · exact .inl ((h.sent a.1 a.2 hsent).exists_payload htx)

theorem Service.invariant_start (engine : S) : (Service.start engine).Invariant env := by
  constructor <;> simp [Service.start, live, effectsOf, WorkerPhase.job, WorkerPhase.attempt,
    WorkerPhase.unsent]

theorem WorkerPhase.job_of_attempt {w : WorkerPhase S} {a : PendingBatchJob × S}
    (h : a ∈ w.attempt) : a.1 ∈ w.job := by
  cases w with
  | executed job pre trace | proved job pre trace artifacts | sent job pre =>
    cases h
    rfl
  | idle | received job | started job | failing job reason | stopped => cases h

theorem Service.effectsOf_append (σ : Service S) (batchId other : String)
    (txs : List Transaction) :
    ({ σ with effects := σ.effects ++ txs.map fun tx => (batchId, tx) } : Service S).effectsOf
        other = σ.effectsOf other ++ if batchId = other then txs else [] := by
  by_cases h : batchId = other
  · simp [effectsOf, h, List.filter_map, Function.comp_def]
  · simp [effectsOf, h, List.filter_map, Function.comp_def]

theorem Service.payloadOf_append (σ : Service S) (p : BatchPayload) (batchId : String) :
    ({ σ with stream := σ.stream ++ [p] } : Service S).payloadOf batchId =
      if p.batchId = batchId then some p else σ.payloadOf batchId := by
  by_cases h : p.batchId = batchId
  · simp [payloadOf, h]
  · simp [payloadOf, h]

namespace Service.Invariant

variable {σ : Service S}

theorem ne_completed_of_working (h : σ.Invariant env) {job : PendingBatchJob}
    (hj : job ∈ σ.worker.job) : σ.batchStates job.payload.batchId ≠ some .completed := by
  rw [h.working job hj]
  cases σ.worker <;> simp [WorkerPhase.batchState]

theorem ne_completed_of_waiting (h : σ.Invariant env) {job : PendingBatchJob}
    (hj : job ∈ σ.senders ++ σ.queue) :
    σ.batchStates job.payload.batchId ≠ some .completed := by
  simp [h.waiting job hj]

theorem waiting_ne_working (h : σ.Invariant env) {job waiting : PendingBatchJob}
    (hj : job ∈ σ.worker.job) (hw : waiting ∈ σ.senders ++ σ.queue) :
    waiting.payload.batchId ≠ job.payload.batchId := by
  have hn := h.nodup
  rw [live, List.map_append, List.nodup_append] at hn
  apply hn.2.2 _ (List.mem_map_of_mem hw)
  exact List.mem_map_of_mem (Option.mem_toList.mpr hj)

theorem effectsOf_eq_nil (h : σ.Invariant env) {batchId : String}
    (hdone : σ.batchStates batchId ≠ some .completed)
    (hatt : ∀ a ∈ σ.worker.attempt, a.1.payload.batchId ≠ batchId) :
    σ.effectsOf batchId = [] := by
  by_contra hne
  rcases h.effects batchId hne with hc | ⟨a, ha, he⟩
  · exact hdone hc
  · exact hatt a ha he

theorem congr (h : σ.Invariant env) {σ' : Service S} (hstates : σ'.batchStates = σ.batchStates)
    (hsenders : σ'.senders = σ.senders) (hqueue : σ'.queue = σ.queue)
    (hworker : σ'.worker = σ.worker) (hstream : σ'.stream = σ.stream)
    (heffects : σ'.effects = σ.effects) : σ'.Invariant env := by
  cases σ
  cases σ'
  subst hstates hsenders hqueue hworker hstream heffects
  exact ⟨h.nodup, h.waiting, h.working, h.effects, h.rejected, h.unsent, h.sent, h.completed⟩

theorem release (h : σ.Invariant env) {w : WorkerPhase S} (hw : w = .idle ∨ w = .stopped)
    (hnil : ∀ a ∈ σ.worker.attempt, σ.effectsOf a.1.payload.batchId = []) :
    ({ σ with worker := w } : Service S).Invariant env := by
  have hjob : w.job = none := by rcases hw with rfl | rfl <;> rfl
  have hatt : w.attempt = none := by rcases hw with rfl | rfl <;> rfl
  have hun : w.unsent = none := by rcases hw with rfl | rfl <;> rfl
  have hsent : ∀ job pre, w ≠ .sent job pre := by rcases hw with rfl | rfl <;> simp
  refine ⟨?_, h.waiting, by simp [hjob], ?_, by simp [hatt], by simp [hun],
    fun job pre he => absurd he (hsent job pre), h.completed⟩
  · have hn := h.nodup
    rw [live, List.map_append, List.nodup_append] at hn
    simpa [live, hjob] using hn.1
  · intro batchId hne
    rcases h.effects batchId hne with hdone | ⟨a, ha, rfl⟩
    · exact .inl hdone
    · exact absurd (hnil a ha) hne

theorem not_mem_live_release (h : σ.Invariant env) {job : PendingBatchJob}
    (hj : job ∈ σ.worker.job) :
    job.payload.batchId ∉ ({ σ with worker := .idle } : Service S).live := by
  intro hmem
  simp only [live, WorkerPhase.job, Option.toList_none, List.append_nil] at hmem
  obtain ⟨other, hother, he⟩ := List.mem_map.mp hmem
  exact h.waiting_ne_working hj hother he

theorem setBatchState (h : σ.Invariant env) {batchId : String} (state : BatchProcessingState)
    (hlive : batchId ∉ σ.live) (hstate : state ≠ .completed)
    (hnil : σ.effectsOf batchId = []) : (σ.setBatchState batchId state).Invariant env := by
  have hkeep : ∀ {other}, other ∈ σ.live →
      (σ.setBatchState batchId state).batchStates other = σ.batchStates other := by
    intro other hother
    apply Function.update_of_ne
    rintro rfl
    exact hlive hother
  refine ⟨h.nodup, ?_, ?_, ?_, h.rejected, h.unsent, h.sent, ?_⟩
  · intro job hj
    rw [hkeep (List.mem_map_of_mem (List.mem_append_left _ hj))]
    exact h.waiting job hj
  · intro job hj
    rw [hkeep (List.mem_map_of_mem (List.mem_append_right _ (Option.mem_toList.mpr hj)))]
    exact h.working job hj
  · intro other hne
    have hother : other ≠ batchId := by
      rintro rfl
      exact hne hnil
    rcases h.effects other hne with hdone | hatt
    · left
      rw [← hdone]
      exact Function.update_of_ne hother _ _
    · exact .inr hatt
  · intro other hdone
    by_cases hother : other = batchId
    · subst other
      simp [Service.setBatchState, hstate] at hdone
    · simp only [Service.setBatchState, Function.update_of_ne hother] at hdone
      exact h.completed other hdone

theorem occupy (h : σ.Invariant env) {w : WorkerPhase S} {job : PendingBatchJob}
    (hidle : σ.worker = .idle) (hw : w.job = some job) (hatt : w.attempt = none)
    (hun : w.unsent = none) (hlive : job.payload.batchId ∉ σ.live)
    (hstate : σ.batchStates job.payload.batchId = some w.batchState) :
    ({ σ with worker := w } : Service S).Invariant env := by
  refine ⟨?_, h.waiting, ?_, ?_, by simp [hatt], by simp [hun], ?_, h.completed⟩
  · have hn := h.nodup
    simp only [live, hidle, WorkerPhase.job, Option.toList_none, List.append_nil] at hn hlive
    rw [live, hw, Option.toList_some, List.map_append, List.map_singleton]
    apply List.nodup_append.mpr
    refine ⟨hn, List.nodup_singleton _, ?_⟩
    rintro a ha b hb rfl
    rw [List.mem_singleton.mp hb] at ha
    exact hlive ha
  · intro other hother
    obtain rfl : job = other := by simpa [hw] using hother
    exact hstate
  · intro batchId hne
    rcases h.effects batchId hne with hdone | ⟨a, ha, -⟩
    · exact .inl hdone
    · simp [hidle, WorkerPhase.attempt] at ha
  · rintro other pre rfl
    simp [WorkerPhase.attempt] at hatt

theorem rearrange (h : σ.Invariant env) {senders queue : List PendingBatchJob}
    (hsub : (senders ++ queue).Subperm (σ.senders ++ σ.queue)) :
    ({ σ with senders := senders, queue := queue } : Service S).Invariant env := by
  refine ⟨?_, fun job hj => h.waiting job (hsub.subset hj), h.working, h.effects, h.rejected,
    h.unsent, h.sent, h.completed⟩
  obtain ⟨jobs, hperm, hjobs⟩ := (List.subperm_append_right σ.worker.job.toList).mpr hsub
  exact (hperm.map _).nodup (h.nodup.sublist (hjobs.map _))

theorem addSender (h : σ.Invariant env) {job : PendingBatchJob}
    (hlive : job.payload.batchId ∉ σ.live)
    (hstate : σ.batchStates job.payload.batchId = some .pending) :
    ({ σ with senders := σ.senders ++ [job] } : Service S).Invariant env := by
  refine ⟨?_, ?_, h.working, h.effects, h.rejected, h.unsent, h.sent, h.completed⟩
  · have hperm : (σ.senders ++ [job] ++ σ.queue ++ σ.worker.job.toList).Perm
        (job :: (σ.senders ++ σ.queue ++ σ.worker.job.toList)) := by
      simp
    apply (hperm.map _).nodup_iff.mpr
    exact List.nodup_cons.mpr ⟨hlive, h.nodup⟩
  · intro other hother
    simp only [List.mem_append, List.mem_singleton] at hother
    rcases hother with (hother | rfl) | hother
    · exact h.waiting other (List.mem_append_left _ hother)
    · exact hstate
    · exact h.waiting other (List.mem_append_right _ hother)

theorem addPending (h : σ.Invariant env) {job : PendingBatchJob}
    (hfailed : ∀ state, σ.batchStates job.payload.batchId = some state →
      ∃ why, state = .failed why) : (σ.addPending job).Invariant env := by
  have hdone : σ.batchStates job.payload.batchId ≠ some .completed := by
    intro hc
    obtain ⟨why, hwhy⟩ := hfailed _ hc
    cases hwhy
  have hwork : ∀ other ∈ σ.worker.job, other.payload.batchId ≠ job.payload.batchId := by
    intro other hother he
    obtain ⟨why, hwhy⟩ := hfailed _ (he ▸ h.working other hother)
    cases hw : σ.worker <;> simp [hw, WorkerPhase.batchState] at hwhy
  have hlive : job.payload.batchId ∉ σ.live := by
    intro hmem
    obtain ⟨other, hother, he⟩ := List.mem_map.mp hmem
    rcases List.mem_append.mp hother with hwait | hother
    · obtain ⟨why, hwhy⟩ := hfailed _ (he ▸ h.waiting other hwait)
      cases hwhy
    · exact hwork other (Option.mem_toList.mp hother) he
  have hnil : σ.effectsOf job.payload.batchId = [] :=
    h.effectsOf_eq_nil hdone fun a ha => hwork a.1 (WorkerPhase.job_of_attempt ha)
  exact (h.setBatchState .pending hlive (by simp) hnil).addSender hlive
    (Function.update_self ..)

theorem eraseSender (h : σ.Invariant env) (i : ℕ) :
    ({ σ with senders := σ.senders.eraseIdx i } : Service S).Invariant env :=
  h.rearrange ((List.eraseIdx_sublist _ _).append_right _).subperm

theorem enqueue (h : σ.Invariant env) {i : ℕ} {job : PendingBatchJob}
    (hi : σ.senders[i]? = some job) :
    ({ σ with senders := σ.senders.eraseIdx i, queue := σ.queue ++ [job] } :
      Service S).Invariant env := by
  apply h.rearrange
  apply List.Perm.subperm
  obtain ⟨hlt, rfl⟩ := List.getElem?_eq_some_iff.mp hi
  have herase : (σ.senders[i] :: σ.senders.eraseIdx i).Perm σ.senders :=
    List.getElem_cons_eraseIdx_perm hlt
  calc σ.senders.eraseIdx i ++ (σ.queue ++ [σ.senders[i]])
      _ |>.Perm (σ.senders[i] :: (σ.senders.eraseIdx i ++ σ.queue)) := by
        rw [← List.append_assoc]
        exact List.perm_append_singleton _ _
      _ |>.Perm (σ.senders ++ σ.queue) := herase.append_right _

theorem enqueueFailed (h : σ.Invariant env) {i : ℕ} {job : PendingBatchJob} {why : String}
    (hi : σ.senders[i]? = some job) (hw : σ.worker = .stopped) :
    (({ σ with senders := σ.senders.eraseIdx i } : Service S).setBatchState
      job.payload.batchId (.failed why)).Invariant env := by
  have hmem : job ∈ σ.senders ++ σ.queue :=
    List.mem_append_left _ (List.mem_of_getElem? hi)
  apply (h.eraseSender i).setBatchState _ _ (by simp)
  · apply h.effectsOf_eq_nil (h.ne_completed_of_waiting hmem)
    simp [hw, WorkerPhase.attempt]
  · have hn := (h.enqueue hi).nodup
    simp only [live, hw, WorkerPhase.job, Option.toList_none, List.append_nil] at hn ⊢
    rw [← List.append_assoc, List.map_append, List.nodup_append] at hn
    intro hin
    exact hn.2.2 _ hin _ (by simp) rfl

theorem recv (h : σ.Invariant env) {job : PendingBatchJob} {rest : List PendingBatchJob}
    (hw : σ.worker = .idle) (hq : σ.queue = job :: rest) :
    ({ σ with queue := rest, worker := .received job } : Service S).Invariant env := by
  have hrest : ({ σ with queue := rest } : Service S).Invariant env := by
    apply h.rearrange
    rw [hq]
    exact ((List.sublist_cons_self job rest).append_left _).subperm
  refine hrest.occupy hw rfl rfl rfl ?_ (h.waiting job (by simp [hq]))
  have hn := h.nodup
  simp only [live, hq, hw, WorkerPhase.job, Option.toList_none, List.append_nil] at hn ⊢
  have hperm : (σ.senders ++ job :: rest).Perm (job :: (σ.senders ++ rest)) :=
    List.perm_middle
  exact (List.nodup_cons.mp ((hperm.map _).nodup hn)).1

theorem start (h : σ.Invariant env) {job : PendingBatchJob} (hw : σ.worker = .received job) :
    (({ σ with worker := .started job } : Service S).setBatchState
      job.payload.batchId .inProgress).Invariant env := by
  have hj : job ∈ σ.worker.job := by simp [hw, WorkerPhase.job]
  have hatt : σ.worker.attempt = none := by simp [hw, WorkerPhase.attempt]
  have hnil := h.effectsOf_eq_nil (h.ne_completed_of_working hj) (by simp [hatt])
  have hlive := h.not_mem_live_release hj
  have hset := (h.release (.inl rfl) (by simp [hatt])).setBatchState
    .inProgress hlive (by simp) hnil
  exact hset.occupy rfl (w := .started job) rfl rfl rfl hlive (Function.update_self ..)

theorem giveUp (h : σ.Invariant env) {job : PendingBatchJob} {why : String}
    (hj : job ∈ σ.worker.job) (hstate : σ.worker.batchState = .inProgress)
    (hnil : ∀ a ∈ σ.worker.attempt, σ.effectsOf a.1.payload.batchId = []) :
    ({ σ with worker := .failing job why } : Service S).Invariant env := by
  refine (h.release (.inl rfl) hnil).occupy rfl (w := .failing job why) rfl rfl rfl
    (h.not_mem_live_release hj) ?_
  rw [h.working job hj, hstate]
  rfl

theorem executed (h : σ.Invariant env) {σ' : Service S} {job : PendingBatchJob} {s : S}
    {trace : ExecutionTraceV1} (hw : σ.worker = .started job)
    (hnone : AllRejected env.rt (env.mgr.getAccount σ.engine) (job.payload.batchId, job.txs) →
      trace.executedTransactions = [])
    (hσ' : σ' = { σ with
      engine := s
      worker := .executed job σ.engine trace
      effects := σ.effects ++
        trace.executedTransactions.map fun tx => (job.payload.batchId, tx) }) :
    σ'.Invariant env := by
  have hj : job ∈ σ.worker.job := by simp [hw, WorkerPhase.job]
  have hatt : σ.worker.attempt = none := by simp [hw, WorkerPhase.attempt]
  have hnil := h.effectsOf_eq_nil (h.ne_completed_of_working hj) (by simp [hatt])
  have hall : ∀ other, σ'.effectsOf other = σ.effectsOf other ++
      if job.payload.batchId = other then trace.executedTransactions else [] := by
    intro other
    rw [hσ']
    exact σ.effectsOf_append job.payload.batchId other trace.executedTransactions
  have hown : σ'.effectsOf job.payload.batchId = trace.executedTransactions := by
    rw [hall, hnil, List.nil_append, if_pos rfl]
  have hothers : ∀ other, job.payload.batchId ≠ other →
      σ'.effectsOf other = σ.effectsOf other := by
    intro other hne
    rw [hall, if_neg hne, List.append_nil]
  subst hσ'
  refine ⟨?_, h.waiting, ?_, ?_, ?_, ?_, by simp, ?_⟩
  · have hn := h.nodup
    rw [live, hw] at hn
    exact hn
  · have hs := h.working
    rw [hw] at hs
    exact hs
  · intro other hne
    by_cases hother : job.payload.batchId = other
    · exact .inr ⟨(job, σ.engine), rfl, hother⟩
    · rw [hothers other hother] at hne
      rcases h.effects other hne with hdone | ⟨a, ha, -⟩
      · exact .inl hdone
      · simp [hatt] at ha
  · rintro a ⟨⟩ hrej
    rw [hown]
    exact hnone hrej
  · rintro x ⟨⟩
    exact hown
  · intro other hdone
    have hother : job.payload.batchId ≠ other := by
      rintro rfl
      exact h.ne_completed_of_working hj hdone
    obtain ⟨p, hp, hlists⟩ := h.completed other hdone
    refine ⟨p, hp, ?_⟩
    rw [hothers other hother]
    exact hlists

theorem prove (h : σ.Invariant env) {job : PendingBatchJob} {pre : S}
    {trace : ExecutionTraceV1} {artifacts : ProofArtifacts}
    (hw : σ.worker = .executed job pre trace) :
    ({ σ with worker := .proved job pre trace artifacts } : Service S).Invariant env := by
  obtain ⟨hnodup, hwait, hwork, heff, hrej, hun, -, hdone⟩ := h
  rw [hw] at hwork heff hrej hun
  rw [live, hw] at hnodup
  exact ⟨hnodup, hwait, hwork, heff, hrej, hun, by simp, hdone⟩

theorem publish (h : σ.Invariant env) {job : PendingBatchJob} {pre : S}
    {trace : ExecutionTraceV1} {artifacts : ProofArtifacts} {p : BatchPayload}
    (hw : σ.worker = .proved job pre trace artifacts)
    (hid : p.batchId = job.payload.batchId) (hp : p.executed = trace.executedTransactions) :
    ({ σ with worker := .sent job pre, stream := σ.stream ++ [p] } : Service S).Invariant
      env := by
  have hj : job ∈ σ.worker.job := by simp [hw, WorkerPhase.job]
  have hdone := h.ne_completed_of_working hj
  have hpay := σ.payloadOf_append p
  have hown := h.unsent (job, trace) (by simp [hw, WorkerPhase.unsent])
  obtain ⟨hnodup, hwait, hwork, heff, hrej, -, -, hcompleted⟩ := h
  rw [hw] at hwork heff hrej
  rw [live, hw] at hnodup
  refine ⟨hnodup, hwait, hwork, heff, hrej, by simp [WorkerPhase.unsent], ?_, ?_⟩
  · rintro other pre' ⟨⟩
    refine ⟨p, (hpay _).trans (if_pos hid), ?_⟩
    intro tx htx
    rw [hp, ← hown]
    exact htx
  · intro other hother
    have hne : p.batchId ≠ other := by
      rw [hid]
      rintro rfl
      exact hdone hother
    obtain ⟨q, hq, hlists⟩ := hcompleted other hother
    exact ⟨q, ((hpay other).trans (if_neg hne)).trans hq, hlists⟩

theorem complete (h : σ.Invariant env) {job : PendingBatchJob} {pre : S}
    (hw : σ.worker = .sent job pre) :
    (({ σ with worker := .idle } : Service S).setBatchState
      job.payload.batchId .completed).Invariant env := by
  have hj : job ∈ σ.worker.job := by simp [hw, WorkerPhase.job]
  have hlive := h.not_mem_live_release hj
  have hkeep : ∀ {other}, other ≠ job.payload.batchId →
      Function.update σ.batchStates job.payload.batchId (some .completed) other =
        σ.batchStates other := fun hne => Function.update_of_ne hne _ _
  refine ⟨?_, ?_, by simp [Service.setBatchState, WorkerPhase.job], ?_,
    by simp [Service.setBatchState, WorkerPhase.attempt],
    by simp [Service.setBatchState, WorkerPhase.unsent], by simp [Service.setBatchState], ?_⟩
  · have hn := h.nodup
    rw [live, List.map_append, List.nodup_append] at hn
    simpa [live, Service.setBatchState, WorkerPhase.job] using hn.1
  · intro other hother
    exact (hkeep (h.waiting_ne_working hj hother)).trans (h.waiting other hother)
  · intro other hne
    left
    by_cases hother : other = job.payload.batchId
    · subst other
      exact Function.update_self ..
    · rcases h.effects other hne with hdone | ⟨a, ha, he⟩
      · exact (hkeep hother).trans hdone
      · obtain rfl : (job, pre) = a := by simpa [hw, WorkerPhase.attempt] using ha
        exact absurd he.symm hother
  · intro other hdone
    by_cases hother : other = job.payload.batchId
    · subst other
      exact h.sent job pre hw
    · exact h.completed other ((hkeep hother).symm.trans hdone)

theorem recordFailure (h : σ.Invariant env) {job : PendingBatchJob} {why : String}
    (hw : σ.worker = .failing job why) :
    (({ σ with worker := .idle } : Service S).setBatchState
      job.payload.batchId (.failed why)).Invariant env := by
  have hj : job ∈ σ.worker.job := by simp [hw, WorkerPhase.job]
  have hatt : σ.worker.attempt = none := by simp [hw, WorkerPhase.attempt]
  apply (h.release (.inl rfl) (by simp [hatt])).setBatchState _ (h.not_mem_live_release hj)
    (by simp)
  exact h.effectsOf_eq_nil (h.ne_completed_of_working hj) (by simp [hatt])

theorem stop (h : σ.Invariant env)
    (hnil : ∀ a ∈ σ.worker.attempt, σ.effectsOf a.1.payload.batchId = []) :
    ({ σ with worker := .stopped, queue := [] } : Service S).Invariant env := by
  apply (h.release (.inr rfl) hnil).rearrange
  simpa using (List.sublist_append_left σ.senders σ.queue).subperm

end Service.Invariant

theorem ServiceStep.invariant {σ σ' : Service S} {event : ServiceEvent}
    (hstep : ServiceStep env σ event σ') (hreturns : ExecutionReturns env σ event)
    (hgive : GivesUpRejected env σ event) (h : σ.Invariant env) : σ'.Invariant env := by
  have hnil : givesUp env σ event = true →
      ∀ a ∈ σ.worker.attempt, σ.effectsOf a.1.payload.batchId = [] :=
    fun hup a ha => h.rejected a ha (hgive hup a ha)
  cases serviceStep_effect hstep with
  | answered | subscribed | unsubscribed | serverStopped | reset =>
    exact h.congr rfl rfl rfl rfl rfl rfl
  | added _ hnew => exact h.addPending hnew
  | enqueued hi => exact (h.enqueue hi).congr rfl rfl rfl rfl rfl rfl
  | notEnqueued hi hw => exact (h.enqueueFailed hi hw).congr rfl rfl rfl rfl rfl rfl
  | cancelled => exact h.eraseSender _
  | received hw hq => exact h.recv hw hq
  | began hw => exact h.start hw
  | @notExecuted job _ _ _ hw hexec =>
    obtain ⟨trace, hok⟩ := hreturns job (by simp [hw, WorkerPhase.toExecute])
    rw [hexec] at hok
    cases hok
  | executed hw hexec =>
    obtain ⟨l, hr, rfl, rfl⟩ := executeBatch_ok_iff.mp hexec
    refine h.executed hw ?_ rfl
    intro hrej
    exact (executed_eq_nil_iff hr rfl).mpr hrej
  | failed hj hstage =>
    refine h.giveUp hj ?_ (hnil rfl)
    cases hw : σ.worker <;> simp [hw, WorkerPhase.stages] at hstage <;> rfl
  | notProved hw hviolates =>
    exact h.giveUp (by simp [hw, WorkerPhase.job]) (by simp [hw, WorkerPhase.batchState])
      (hnil hviolates)
  | proved hw => exact h.prove hw
  | notSent hw hnobody =>
    exact h.giveUp (by simp [hw, WorkerPhase.job]) (by simp [hw, WorkerPhase.batchState])
      (hnil (by simp [givesUp, hnobody]))
  | sent hw => exact h.publish hw rfl rfl
  | completed hw => exact h.complete hw
  | failureRecorded hw => exact h.recordFailure hw
  | panicked => exact h.stop (hnil rfl)

/-- No effect is lost in a run in which `execute_batch` returns and attempts are given up
only where the checks reject every transaction of the batch. -/
theorem noEffectLost_of_givesUpRejected (env : ServiceEnv S) (engine : S) (σ : Service S)
    (events : List ServiceEvent)
    (hr : Run (ServiceStep env) (Service.start engine) events σ)
    (hreturns : Along (ServiceStep env) (ExecutionReturns env) (Service.start engine) events)
    (hgive : Along (ServiceStep env) (GivesUpRejected env) (Service.start engine) events) :
    σ.NoEffectLost := by
  have hσ : σ.Invariant env := by
    refine hr.invariant ?_ (hreturns.and hgive) (Service.invariant_start engine)
    intro τ event τ' hτ hok hstep
    exact hstep.invariant hok.1 hok.2 hτ
  exact hσ.noEffectLost

def forcedPaymentJson (nonce : String) : List UInt8 :=
  utf8 ("[\x7b\"Forced\":\x7b" ++
    "\"from\":\"0x0101010101010101010101010101010101010101\"," ++
    "\"to\":\"0x0202020202020202020202020202020202020202\"," ++
    "\"value\":\"0xa\",\"nonce\":" ++ nonce ++
    ",\"gas_limit\":0,\"timestamp\":0\x7d\x7d]")

/-- A service over the in-memory store, with as much of a JSON parser as it meets below. -/
def localService : ServiceEnv InMemoryStateManager where
  rt := localRuntime
  mgr := InMemoryStateManager.stateManager Sha256.hash
  genesis := ⟨none, none⟩
  queueCapacity := 1024
  experimentId := none
  requireRealProofs := none
  fromSlice data :=
    if data = .raw (forcedPaymentJson "0") then .ok [.forced ⟨alice, bob, 10, 0, 0, 0⟩]
    else if data = .raw (forcedPaymentJson "1") then .ok [.forced ⟨alice, bob, 10, 1, 0, 0⟩]
    else .error "expected value at line 1 column 1"

def batchOf (batchId nonce : String) : BatchPayload :=
  ⟨batchId, .raw (forcedPaymentJson nonce), [], [], [], [], "local"⟩

def publishAndExecute (payload : BatchPayload) : List ServiceEvent :=
  [.publish payload, .enqueue 0, .recv, .begin, .execute]

def finishBatch : List ServiceEvent :=
  [.prove ⟨[], [], "groth16"⟩, .send, .complete]

def failProof : List ServiceEvent :=
  [.fail .proofGeneration "risc0 host exited with status 1", .recordFailure]

theorem executionReturns_localService (σ : Service InMemoryStateManager)
    (event : ServiceEvent) : ExecutionReturns localService σ event :=
  fun job _ => InMemoryStateManager.succeeds localRuntime Sha256.hash σ.engine
    job.payload.batchId job.txs

theorem noEffectLost_retriedRejected :
    ∃ σ, Run (ServiceStep localService) (Service.start aliceStore)
        (publishAndExecute (batchOf "b1" "1") ++ failProof ++
          (publishAndExecute (batchOf "b0" "0") ++ finishBatch) ++
          (publishAndExecute (batchOf "b1" "1") ++ finishBatch)) σ ∧
      σ.effects = [("b0", payment alice bob 10 0), ("b1", payment alice bob 10 1)] ∧
      σ.NoEffectLost := by
  obtain ⟨σ, hr, he⟩ := exists_run_of_foldlM (Service.step localService)
    (Service.start aliceStore)
    (publishAndExecute (batchOf "b1" "1") ++ failProof ++
      (publishAndExecute (batchOf "b0" "0") ++ finishBatch) ++
      (publishAndExecute (batchOf "b1" "1") ++ finishBatch))
    Service.effects
    (b := [("b0", payment alice bob 10 0), ("b1", payment alice bob 10 1)]) (by decide +kernel)
  refine ⟨σ, hr, he, noEffectLost_of_givesUpRejected localService aliceStore σ _ hr ?_ ?_⟩
  · exact Along.of_forall fun event _ τ => executionReturns_localService τ event
  · exact Along.of_check (f := Service.step localService) (by decide +kernel)

/-- A payment is executed and its proof fails. The second attempt rejects the payment by
its nonce and completes the batch, and no payload lists the payment. -/
theorem effectLost_retriedPayment :
    ∃ σ, Run (ServiceStep localService) (Service.start aliceStore)
        (publishAndExecute (batchOf "b1" "0") ++ failProof ++
          (publishAndExecute (batchOf "b1" "0") ++ finishBatch)) σ ∧
      σ.batchStates "b1" = some .completed ∧
      ("b1", payment alice bob 10 0) ∈ σ.effects ∧
      (∀ p ∈ σ.stream, payment alice bob 10 0 ∉ p.executed) ∧
      ¬σ.NoEffectLost := by
  obtain ⟨σ, hr, hview⟩ := exists_run_of_foldlM (Service.step localService)
    (Service.start aliceStore)
    (publishAndExecute (batchOf "b1" "0") ++ failProof ++
      (publishAndExecute (batchOf "b1" "0") ++ finishBatch))
    (fun σ => (σ.batchStates "b1", σ.effects, σ.stream.map BatchPayload.executed))
    (b := (some .completed, [("b1", payment alice bob 10 0)], [[]])) (by decide +kernel)
  simp only [Prod.mk.injEq] at hview
  obtain ⟨hstate, heffects, hstream⟩ := hview
  have hmem : ("b1", payment alice bob 10 0) ∈ σ.effects := by simp [heffects]
  have hnot : ∀ p ∈ σ.stream, payment alice bob 10 0 ∉ p.executed := by
    intro p hp
    have hlist : p.executed ∈ σ.stream.map BatchPayload.executed := List.mem_map_of_mem hp
    rw [hstream, List.mem_singleton] at hlist
    simp [hlist]
  refine ⟨σ, hr, hstate, hmem, hnot, fun hlost => ?_⟩
  obtain ⟨p, hp, -, hlisted⟩ := (hlost.completed "b1" hstate).exists_payload
    (Service.mem_effectsOf.mpr hmem)
  exact hnot p hp hlisted

end RollupX.Executor
